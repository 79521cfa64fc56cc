import Mathlib
import Switchboard.Core.ChatEntries

/-!
# What leaves a conversion

The conversion of a history raises its own error, or another one: a lookup of a mapping in
a set, an error of the image library, or a result that a turn takes out twice. `Foreign`
says that a computation ends in one of the others.
-/

namespace Switchboard.Core.Anthropic

open Switchboard.Text

variable {α β : Type}

/-- The computation raises an error that is not the conversion's own. -/
def Foreign (x : Except Raised α) : Prop := ∃ e, x = .error e ∧ e.isConversion = false

@[simp] theorem not_foreign_ok (a : α) : ¬ Foreign (.ok a : Except Raised α) := by
  rintro ⟨e, h, -⟩
  cases h

@[simp] theorem not_foreign_pure (a : α) : ¬ Foreign (pure a : Except Raised α) :=
  not_foreign_ok a

@[simp] theorem foreign_error (e : Raised) :
    Foreign (.error e : Except Raised α) ↔ e.isConversion = false := by
  constructor
  · rintro ⟨e', h, he⟩
    cases h
    exact he
  · intro he
    exact ⟨e, rfl, he⟩

@[simp] theorem foreign_throw (e : Raised) :
    Foreign (throw e : Except Raised α) ↔ e.isConversion = false := foreign_error e

theorem foreign_bind (x : Except Raised α) (f : α → Except Raised β) :
    Foreign (x >>= f) ↔ Foreign x ∨ ∃ a, x = .ok a ∧ Foreign (f a) := by
  cases x with
  | error e =>
    have hbind : (.error e >>= f : Except Raised β) = .error e := rfl
    simp [hbind]
  | ok a =>
    have hbind : (.ok a >>= f : Except Raised β) = f a := rfl
    simp [hbind]

/-- What only returns after a computation adds nothing. -/
theorem foreign_bind_left {x : Except Raised α} {f : α → Except Raised β}
    (hf : ∀ a, ¬ Foreign (f a)) : Foreign (x >>= f) ↔ Foreign x := by
  rw [foreign_bind]
  constructor
  · rintro (h | ⟨a, -, h⟩)
    · exact h
    · exact absurd h (hf a)
  · exact .inl

@[simp] theorem foreign_map (f : α → β) (x : Except Raised α) :
    Foreign (f <$> x) ↔ Foreign x := by
  cases x with
  | error e => exact (foreign_error (α := β) e).trans (foreign_error (α := α) e).symm
  | ok a => exact iff_of_false (not_foreign_ok (f a)) (not_foreign_ok a)

/-- A loop ends so exactly if one of its rounds does, after rounds that return. -/
theorem foreign_foldlM {f : β → α → Except Raised β} (l : List α) (s : β) :
    Foreign (l.foldlM f s) ↔
      ∃ pre a post t, l = pre ++ a :: post ∧ pre.foldlM f s = .ok t ∧ Foreign (f t a) := by
  induction l generalizing s with
  | nil => simp
  | cons a l ih =>
    rw [List.foldlM_cons, foreign_bind]
    constructor
    · rintro (hfirst | ⟨t, ht, hrest⟩)
      · exact ⟨[], a, l, s, rfl, rfl, hfirst⟩
      · obtain ⟨pre, b, post, u, rfl, hu, hb⟩ := (ih t).mp hrest
        refine ⟨a :: pre, b, post, u, rfl, ?_, hb⟩
        rw [List.foldlM_cons, bind_eq_ok]
        exact ⟨t, ht, hu⟩
    · rintro ⟨pre, b, post, u, hl, hu, hb⟩
      cases pre with
      | nil =>
        cases hl
        cases hu
        exact .inl hb
      | cons c pre =>
        cases hl
        rw [List.foldlM_cons, bind_eq_ok] at hu
        obtain ⟨t, ht, hu⟩ := hu
        exact .inr ⟨t, ht, (ih t).mpr ⟨pre, b, post, u, rfl, hu, hb⟩⟩

/-- A loop each of whose rounds does the same whatever the state. -/
theorem foreign_loop {f : β → α → Except Raised β} {Passes Fails : α → Prop}
    (hreturns : ∀ s a, (∃ t, f s a = .ok t) ↔ Passes a)
    (hforeign : ∀ s a, Foreign (f s a) ↔ Fails a) (l : List α) (s : β) :
    Foreign (l.foldlM f s) ↔
      ∃ pre a post, l = pre ++ a :: post ∧ (∀ b ∈ pre, Passes b) ∧ Fails a := by
  simp only [foreign_foldlM, hforeign]
  constructor
  · rintro ⟨pre, a, post, t, hl, hpre, ha⟩
    exact ⟨pre, a, post, hl, (foldlM_returns_iff hreturns pre s).mp ⟨t, hpre⟩, ha⟩
  · rintro ⟨pre, a, post, hl, hpre, ha⟩
    obtain ⟨t, ht⟩ := (foldlM_returns_iff hreturns pre s).mpr hpre
    exact ⟨pre, a, post, t, hl, ht, ha⟩

/-- The computation returns, or looks a mapping up in a set if `fails`. -/
def Looks (x : Except Raised α) (fails : Bool) : Prop :=
  if fails then x = .error .typeError else ∃ a, x = .ok a

theorem Looks.bind {x : Except Raised α} {f : α → Except Raised β} {b c : Bool}
    (hx : Looks x b) (hf : ∀ a, Looks (f a) c) : Looks (x >>= f) (b || c) := by
  cases b with
  | true =>
    obtain rfl : x = .error .typeError := hx
    rfl
  | false =>
    obtain ⟨a, rfl⟩ : ∃ a, x = .ok a := hx
    exact hf a

theorem Looks.pure (a : α) : Looks (pure a : Except Raised α) false := ⟨a, rfl⟩

theorem Looks.foreign {x : Except Raised α} {b : Bool} (hx : Looks x b) :
    Foreign x ↔ b = true := by
  cases b with
  | true =>
    obtain rfl : x = .error .typeError := hx
    simp [Raised.isConversion]
  | false =>
    obtain ⟨a, rfl⟩ : ∃ a, x = .ok a := hx
    simp

theorem Looks.returns {x : Except Raised α} (hx : Looks x false) : ∃ a, x = .ok a := hx

/-! ## Lookups of a `type` -/

/-- The `type` of a value is a list or a mapping. -/
def lookupFails (value : Json) : Bool :=
  match value.getD "type" with
  | .arr _ | .obj _ => true
  | _ => false

/-- `is_tool_search_metadata_block` where it returns. -/
def isMetadata (block : Json) : Bool :=
  toolSearchMetadataBlockTypes.any (isText · (block.getD "type")) ||
    isText "server_tool_use" (block.getD "type") &&
      match block.getD "name" with
      | .str name => isToolSearchControllerName name
      | _ => false

theorem isToolSearchMetadataBlock_eq (block : Json) : isToolSearchMetadataBlock block =
    if lookupFails block then .error .typeError else .ok (isMetadata block) := by
  unfold isToolSearchMetadataBlock lookupFails isMetadata
  cases block.getD "type" <;> rfl

theorem withoutMetadata_eq (blocks : List Json) : withoutMetadata blocks =
    if blocks.any lookupFails then .error .typeError
    else .ok (blocks.filter fun block => !isMetadata block) := by
  induction blocks with
  | nil => rfl
  | cons block blocks ih =>
    rw [withoutMetadata, isToolSearchMetadataBlock_eq, ih]
    by_cases hblock : lookupFails block = true
    · simp [hblock, bind, Except.bind]
    · by_cases hblocks : blocks.any lookupFails = true
      · simp [hblock, hblocks, bind, Except.bind]
      · by_cases hmeta : isMetadata block = true <;>
          simp [hblock, hblocks, hmeta, bind, Except.bind, pure, Except.pure]

/-- A lookup of `without_tool_search_metadata` fails. -/
def contentLookupFails (content : Json) : Bool :=
  match normalizeToolResultContent content with
  | .arr blocks => blocks.any lookupFails
  | value => lookupFails value

/-- `without_tool_search_metadata` where it returns. -/
def realContent (content : Json) : Json :=
  match normalizeToolResultContent content with
  | .arr blocks => .arr (blocks.filter fun block => !isMetadata block)
  | value => if isMetadata value then .null else value

theorem withoutToolSearchMetadata_eq (content : Json) : withoutToolSearchMetadata content =
    if contentLookupFails content then .error .typeError else .ok (realContent content) := by
  unfold withoutToolSearchMetadata contentLookupFails realContent
  generalize normalizeToolResultContent content = value
  simp only [isToolSearchMetadataBlock_eq]
  cases value with
  | arr blocks =>
    have hplain : lookupFails (.arr blocks) = false := rfl
    have hmeta : isMetadata (.arr blocks) = false := rfl
    simp only [hplain, hmeta, withoutMetadata_eq]
    by_cases hblocks : blocks.any lookupFails = true <;>
      simp [hblocks, bind, Except.bind, pure, Except.pure]
  | obj fields =>
    by_cases hfails : lookupFails (.obj fields) = true
    · simp [hfails, bind, Except.bind]
    · by_cases hmeta : isMetadata (.obj fields) = true <;>
        simp [hfails, hmeta, bind, Except.bind, pure, Except.pure]
  | null | bool b | int n | float r | str t => rfl

mutual

/-- Some mapping inside has a list or a mapping as its `type`. -/
def insideLookupFails : Json → Bool
  | .obj fields => lookupFails (.obj fields) || fieldsLookupFails fields
  | .arr items => itemsLookupFails items
  | _ => false

def itemsLookupFails : List Json → Bool
  | [] => false
  | item :: items => insideLookupFails item || itemsLookupFails items

def fieldsLookupFails : List (String × Json) → Bool
  | [] => false
  | (_, value) :: fields => insideLookupFails value || fieldsLookupFails fields

end

theorem looks_mediaBlockType (fields : List (String × Json)) :
    Looks (mediaBlockType ((fields.lookup "type").getD .null)) (lookupFails (.obj fields)) := by
  unfold mediaBlockType lookupFails Json.getD
  rw [Json.get?_obj]
  cases (fields.lookup "type").getD .null with
  | arr items | obj fields => rfl
  | null | bool b | int n | float r | str t => exact ⟨_, rfl⟩

mutual

theorem looks_mediaTypes : ∀ value, Looks (mediaTypes value) (insideLookupFails value)
  | .obj fields => by
    rw [mediaTypes, insideLookupFails]
    refine (looks_mediaBlockType fields).bind fun own => ?_
    rw [← Bool.or_false (fieldsLookupFails fields)]
    exact (looks_mediaTypesOfFields fields).bind fun found => .pure _
  | .arr items => by
    rw [mediaTypes, insideLookupFails]
    exact looks_mediaTypesOfItems items
  | .null | .bool _ | .int _ | .float _ | .str _ => ⟨[], by simp [mediaTypes]⟩

theorem looks_mediaTypesOfItems : ∀ items,
    Looks (mediaTypesOfItems items) (itemsLookupFails items)
  | [] => ⟨[], rfl⟩
  | item :: items => by
    rw [mediaTypesOfItems, itemsLookupFails]
    refine (looks_mediaTypes item).bind fun own => ?_
    rw [← Bool.or_false (itemsLookupFails items)]
    exact (looks_mediaTypesOfItems items).bind fun found => .pure _

theorem looks_mediaTypesOfFields : ∀ fields,
    Looks (mediaTypesOfFields fields) (fieldsLookupFails fields)
  | [] => ⟨[], rfl⟩
  | (_, value) :: fields => by
    rw [mediaTypesOfFields, fieldsLookupFails]
    refine (looks_mediaTypes value).bind fun own => ?_
    rw [← Bool.or_false (fieldsLookupFails fields)]
    exact (looks_mediaTypesOfFields fields).bind fun found => .pure _

end

theorem looks_withoutToolSearchMetadata (content : Json) :
    Looks (withoutToolSearchMetadata content) (contentLookupFails content) := by
  rw [withoutToolSearchMetadata_eq]
  cases contentLookupFails content with
  | true => rfl
  | false => exact ⟨_, rfl⟩

/-- A lookup of `tool_result_media_block_types` fails. -/
def mediaLookupFails (content : Json) : Bool :=
  contentLookupFails content || insideLookupFails (realContent content)

theorem looks_toolResultMediaBlockTypes (content : Json) :
    Looks (toolResultMediaBlockTypes content) (mediaLookupFails content) := by
  unfold toolResultMediaBlockTypes mediaLookupFails
  rw [withoutToolSearchMetadata_eq]
  cases contentLookupFails content with
  | true => rfl
  | false =>
    rw [← Bool.or_false (insideLookupFails (realContent content))]
    exact (looks_mediaTypes (realContent content)).bind fun found => .pure _

theorem looks_serializeItems (dumps : Json → String) (items : List Json) :
    Looks (serializeItems dumps items) (items.any lookupFails) := by
  induction items with
  | nil => exact ⟨[], rfl⟩
  | cons item items ih =>
    rw [serializeItems, isToolSearchMetadataBlock_eq, List.any_cons]
    cases lookupFails item with
    | true => rfl
    | false =>
      rw [← Bool.or_false (items.any lookupFails)]
      exact ih.bind fun parts => .pure _

/-- A text that is left of a tool result has no lookup that fails. -/
theorem looks_serialize (dumps : Json → String) (content : Json) :
    Looks (serializeToolResultContent dumps content) (contentLookupFails content) := by
  unfold serializeToolResultContent
  rw [withoutToolSearchMetadata_eq]
  cases hfails : contentLookupFails content with
  | true => rfl
  | false =>
    simp only [Bool.false_eq_true, if_false]
    cases hreal : realContent content with
    | arr items =>
      have hitems : items.any lookupFails = false := by
        unfold realContent at hreal
        unfold contentLookupFails at hfails
        split at hreal
        · next blocks hblocks =>
          cases hreal
          rw [hblocks] at hfails
          rw [List.any_eq_false] at hfails ⊢
          exact fun item hitem => hfails item (List.mem_of_mem_filter hitem)
        · next value hvalue =>
          split_ifs at hreal
          exact absurd hreal (hvalue items)
      have hserialized := looks_serializeItems dumps items
      rw [hitems] at hserialized
      exact hserialized.bind fun parts => .pure _
    | null | bool b | int n | float r | str t | obj fields => exact ⟨_, rfl⟩

/-! ## Images -/

variable (ext : Externals)

/-- The image library fails on a base64 image that passes the checks before it. -/
def ImageFails (library : ImageLibrary) (block : Json) : Prop :=
  let source := normalizeImageSource block
  isText "base64" (source.getD "type") = true ∧
    ∃ mediaType encoded data, filledText? (source.getD "media_type") = some mediaType ∧
      filledText? (source.getD "data") = some encoded ∧ mediaType ∈ supportedImageTypes ∧
      encoded.length ≤ 4 * ((maxImageBytes + 2) / 3) ∧
      b64decode encoded.toList = some data ∧ data ≠ [] ∧ data.length ≤ maxImageBytes ∧
      library.open? data = .failed

theorem not_foreign_validateImageUrl (library : ImageLibrary) (url : String) :
    ¬ Foreign (validateImageUrl library url) := by
  unfold validateImageUrl
  split_ifs
  · simp [Raised.isConversion]
  · simp [Raised.isConversion]
  · split
    · simp [Raised.isConversion]
    · split_ifs <;> simp [Raised.isConversion]

theorem foreign_validateImageBytes (library : ImageLibrary) (data : List ℕ) (mediaType : String) :
    Foreign (validateImageBytes library data mediaType) ↔ mediaType ∈ supportedImageTypes ∧
      data ≠ [] ∧ data.length ≤ maxImageBytes ∧ library.open? data = .failed := by
  unfold validateImageBytes
  by_cases htype : mediaType ∈ supportedImageTypes
  · rw [if_neg (not_not.mpr htype)]
    by_cases hempty : data = []
    · simp [Raised.isConversion, hempty]
    · by_cases hlong : maxImageBytes < data.length
      · have hlong' : ¬ data.length ≤ maxImageBytes := by omega
        simp [Raised.isConversion, hempty, hlong, hlong']
      · have hfits : data.length ≤ maxImageBytes := by omega
        rw [if_neg hempty, if_neg hlong]
        cases hopen : library.open? data with
        | failed => simp [Raised.isConversion, htype, hempty, hfits]
        | unreadable => simp [Raised.isConversion]
        | opened mimeType =>
          simp only [reduceCtorEq, and_false, iff_false]
          split_ifs <;> simp [Raised.isConversion]
  · rw [if_pos htype]
    simp [Raised.isConversion, htype]

theorem foreign_validateBase64Source (library : ImageLibrary) (mediaType encoded : String) :
    Foreign (validateBase64Source library mediaType encoded) ↔
      mediaType ∈ supportedImageTypes ∧ encoded.length ≤ 4 * ((maxImageBytes + 2) / 3) ∧
        ∃ data, b64decode encoded.toList = some data ∧ data ≠ [] ∧
          data.length ≤ maxImageBytes ∧ library.open? data = .failed := by
  unfold validateBase64Source
  by_cases htype : mediaType ∈ supportedImageTypes
  · rw [if_neg (not_not.mpr htype)]
    by_cases hlong : 4 * ((maxImageBytes + 2) / 3) < encoded.length
    · have hlong' : ¬ encoded.length ≤ 4 * ((maxImageBytes + 2) / 3) := by omega
      simp [Raised.isConversion, hlong, hlong']
    · have hfits : encoded.length ≤ 4 * ((maxImageBytes + 2) / 3) := by omega
      rw [if_neg hlong]
      cases hdata : b64decode encoded.toList with
      | none => simp [Raised.isConversion]
      | some data =>
        simp only [foreign_validateImageBytes, hfits, htype, true_and, Option.some.injEq,
          exists_eq_left']
  · rw [if_pos htype]
    simp [Raised.isConversion, htype]

/-- Only the image library makes an image fail in another way than the checks do. -/
theorem foreign_openaiUserImageUrl (library : ImageLibrary) (block : Json) :
    Foreign (openaiUserImageUrl library block) ↔ ImageFails library block := by
  unfold openaiUserImageUrl ImageFails
  generalize normalizeImageSource block = source
  dsimp only
  by_cases hbase64 : isText "base64" (source.getD "type") = true
  · simp only [hbase64, if_true, true_and]
    cases hmedia : filledText? (source.getD "media_type") with
    | none => simp [Raised.isConversion]
    | some mediaType =>
      cases hdata : filledText? (source.getD "data") with
      | none => simp [Raised.isConversion]
      | some encoded =>
        simp [foreign_validateBase64Source]
  · simp only [hbase64, Bool.false_eq_true, if_false, false_and, iff_false]
    split_ifs
    · cases filledText? (source.getD "url") with
      | none => simp [Raised.isConversion]
      | some url => simp [not_foreign_validateImageUrl]
    · simp [Raised.isConversion]

/-! ## Tool results -/

/-- What breaks the conversion of an item of a tool result. -/
def ItemFails (library : ImageLibrary) (item : Json) : Prop :=
  if lookupFails item then True
  else if isMetadata item then False
  else if isText "image" (item.getD "type") then ImageFails library item
  else isText "document" (item.getD "type") = false ∧ mediaLookupFails item = true

/-- One round, by what it finds out about the item. -/
theorem addResultItem_eq (toolUseId : String) (found : List ContentPart × List Json)
    (item : Json) (hlookup : lookupFails item = false) (hmeta : isMetadata item = false) :
    addResultItem ext toolUseId found item =
      if isText "image" (item.getD "type") then
        (fun url => (found.1 ++ [.imageUrl url], found.2)) <$> openaiUserImageUrl ext.library item
      else if isText "document" (item.getD "type") then
        .error (.conversion ("OpenAI chat conversion cannot represent document blocks inside " ++
          s!"tool_result {Json.reprString toolUseId} without data loss."))
      else toolResultMediaBlockTypes item >>= fun nestedMedia =>
        if nestedMedia ≠ [] then
          .error (.conversion ("OpenAI chat conversion cannot represent nested structured media " ++
            s!"blocks {tupleRepr nestedMedia} inside tool_result " ++
            s!"{Json.reprString toolUseId}; refusing lossy text serialization."))
        else .ok (found.1, found.2 ++ [item]) := by
  unfold addResultItem
  rw [isToolSearchMetadataBlock_eq, hlookup, hmeta]
  by_cases himage : isText "image" (item.getD "type") = true
  · simp only [himage, if_true]
    cases openaiUserImageUrl ext.library item <;> rfl
  · by_cases hdocument : isText "document" (item.getD "type") = true
    · simp only [himage, hdocument, if_true]
      rfl
    · simp only [himage, hdocument]
      cases toolResultMediaBlockTypes item with
      | error e => rfl
      | ok nestedMedia =>
        cases nestedMedia <;> rfl

theorem foreign_addResultItem (toolUseId : String) (found : List ContentPart × List Json)
    (item : Json) :
    Foreign (addResultItem ext toolUseId found item) ↔ ItemFails ext.library item := by
  unfold ItemFails
  by_cases hlookup : lookupFails item = true
  · rw [addResultItem, isToolSearchMetadataBlock_eq]
    simp [hlookup, foreign_bind, Raised.isConversion]
  · by_cases hmeta : isMetadata item = true
    · rw [addResultItem, isToolSearchMetadataBlock_eq]
      simp [hlookup, hmeta, foreign_bind]
    · rw [Bool.not_eq_true] at hlookup hmeta
      rw [addResultItem_eq ext toolUseId found item hlookup hmeta]
      simp only [hlookup, hmeta, Bool.false_eq_true, if_false]
      by_cases himage : isText "image" (item.getD "type") = true
      · simp only [himage, if_true, foreign_map, foreign_openaiUserImageUrl]
      · by_cases hdocument : isText "document" (item.getD "type") = true
        · simp [himage, hdocument, Raised.isConversion]
        · simp only [himage, hdocument, Bool.false_eq_true, if_false, foreign_bind,
            (looks_toolResultMediaBlockTypes item).foreign, true_and]
          constructor
          · rintro (hfails | ⟨nestedMedia, -, hnested⟩)
            · exact hfails
            · split_ifs at hnested <;> simp [Raised.isConversion] at hnested
          · exact .inl

/-- The items after which the loop goes on. -/
def ItemPasses (toolUseId : String) (item : Json) : Prop :=
  ∃ found, addResultItem ext toolUseId ([], []) item = .ok found

/-- What a round does with an item does not depend on the items before it. -/
theorem addResultItem_returns (toolUseId : String) (found : List ContentPart × List Json)
    (item : Json) :
    (∃ next, addResultItem ext toolUseId found item = .ok next) ↔
      ItemPasses ext toolUseId item := by
  unfold ItemPasses
  by_cases hlookup : lookupFails item = true
  · simp [addResultItem, isToolSearchMetadataBlock_eq, hlookup, bind_eq_ok]
  · by_cases hmeta : isMetadata item = true
    · simp only [addResultItem, isToolSearchMetadataBlock_eq, hlookup, hmeta]
      exact iff_of_true ⟨found, rfl⟩ ⟨([], []), rfl⟩
    · rw [Bool.not_eq_true] at hlookup hmeta
      simp only [addResultItem_eq ext toolUseId _ item hlookup hmeta]
      split_ifs
      · cases openaiUserImageUrl ext.library item with
        | error e => exact iff_of_false (by rintro ⟨_, h⟩; cases h) (by rintro ⟨_, h⟩; cases h)
        | ok url => exact iff_of_true ⟨_, rfl⟩ ⟨_, rfl⟩
      · simp
      · cases toolResultMediaBlockTypes item with
        | error e => exact iff_of_false (by rintro ⟨_, h⟩; cases h) (by rintro ⟨_, h⟩; cases h)
        | ok nestedMedia =>
          cases nestedMedia with
          | nil => exact iff_of_true ⟨_, rfl⟩ ⟨_, rfl⟩
          | cons media others =>
            exact iff_of_false (by rintro ⟨_, h⟩; cases h) (by rintro ⟨_, h⟩; cases h)

/-- The texts that are collected have no lookup that fails. -/
theorem addResultItems_texts {toolUseId : String} {items : List Json}
    {found : List ContentPart × List Json}
    (h : items.foldlM (addResultItem ext toolUseId) ([], []) = .ok found) :
    found.2.any lookupFails = false := by
  refine foldlM_ok_invariant
    (P := fun _ (found : List ContentPart × List Json) => found.2.any lookupFails = false)
    ?_ (by rfl) h
  intro done item found next hfound hnext
  by_cases hlookup : lookupFails item = true
  · simp [addResultItem, isToolSearchMetadataBlock_eq, hlookup, bind, Except.bind] at hnext
  · rw [Bool.not_eq_true] at hlookup
    by_cases hmeta : isMetadata item = true
    · simp [addResultItem, isToolSearchMetadataBlock_eq, hlookup, hmeta, bind, Except.bind, pure,
        Except.pure] at hnext
      rwa [← hnext]
    · rw [Bool.not_eq_true] at hmeta
      rw [addResultItem_eq ext toolUseId _ item hlookup hmeta] at hnext
      split_ifs at hnext
      · cases hurl : openaiUserImageUrl ext.library item with
        | error e =>
          rw [hurl] at hnext
          cases hnext
        | ok url =>
          rw [hurl] at hnext
          cases hnext
          exact hfound
      · obtain ⟨nestedMedia, -, hnested⟩ := bind_eq_ok.mp hnext
        split_ifs at hnested
        cases hnested
        simp [hfound, hlookup]

/-- What breaks the conversion of a tool result: a lookup in its content, or the first of its
items at which the loop ends. -/
def ResultFails (toolUseId : String) (content : ResultContent) : Prop :=
  contentLookupFails content.toJson = true ∨
    match realContent content.toJson with
    | .arr items => ∃ pre item post, items = pre ++ item :: post ∧
        (∀ passed ∈ pre, ItemPasses ext toolUseId passed) ∧ ItemFails ext.library item
    | value =>
      if isText "image" (value.getD "type") then ImageFails ext.library value
      else mediaLookupFails value = true

theorem foreign_convertResultItems (toolUseId : String) (items : List Json) :
    Foreign (convertResultContent ext toolUseId (.arr items)) ↔
      ∃ pre item post, items = pre ++ item :: post ∧
        (∀ passed ∈ pre, ItemPasses ext toolUseId passed) ∧ ItemFails ext.library item := by
  have hserialize : ∀ found, items.foldlM (addResultItem ext toolUseId) ([], []) = .ok found →
      ¬ Foreign (serializeToolResultContent ext.dumpsUnicode (.arr found.2)) := by
    intro found hfound
    rw [(looks_serialize _ _).foreign]
    exact Bool.eq_false_iff.mp (addResultItems_texts ext hfound)
  unfold convertResultContent
  rw [foreign_bind, foreign_loop (addResultItem_returns ext toolUseId)
    (foreign_addResultItem ext toolUseId)]
  constructor
  · rintro (hfails | ⟨found, hfound, hrest⟩)
    · exact hfails
    · rcases (foreign_bind _ _).mp hrest with hrest | ⟨text, -, hpure⟩
      · exact absurd hrest (hserialize found hfound)
      · exact absurd hpure (not_foreign_pure _)
  · exact .inl

/-- A result that is no list of items. -/
theorem foreign_convertResultValue (toolUseId : String) (value : Json)
    (hvalue : ∀ items, value ≠ .arr items) :
    Foreign (convertResultContent ext toolUseId value) ↔
      if isText "image" (value.getD "type") then ImageFails ext.library value
      else mediaLookupFails value = true := by
  have hunfold : convertResultContent ext toolUseId value =
      if isText "image" (value.getD "type") then
        (fun url => ([.imageUrl url], "")) <$> openaiUserImageUrl ext.library value
      else toolResultMediaBlockTypes value >>= fun nestedMedia =>
        if nestedMedia ≠ [] then
          .error (.conversion ("OpenAI chat conversion cannot represent structured media blocks " ++
            s!"{tupleRepr nestedMedia} inside tool_result {Json.reprString toolUseId}; refusing " ++
            "lossy text serialization."))
        else (fun text => ([], text)) <$> serializeToolResultContent ext.dumpsUnicode value := by
    unfold convertResultContent
    split
    · next items => exact absurd rfl (hvalue items)
    · by_cases himage : isText "image" (value.getD "type") = true
      · simp only [himage, if_true]
        cases openaiUserImageUrl ext.library value <;> rfl
      · simp only [himage]
        cases toolResultMediaBlockTypes value with
        | error e => rfl
        | ok nestedMedia => cases nestedMedia <;> rfl
  rw [hunfold]
  by_cases himage : isText "image" (value.getD "type") = true
  · simp only [himage, if_true, foreign_map, foreign_openaiUserImageUrl]
  · simp only [himage, Bool.false_eq_true, if_false, foreign_bind,
      (looks_toolResultMediaBlockTypes value).foreign]
    constructor
    · rintro (hfails | ⟨nestedMedia, hmedia, hrest⟩)
      · exact hfails
      · split_ifs at hrest
        · simp [Raised.isConversion] at hrest
        · rw [foreign_map, (looks_serialize _ _).foreign] at hrest
          simp [mediaLookupFails, hrest]
    · exact .inl

theorem foreign_openaiChatToolResult (toolUseId : String) (content : ResultContent) :
    Foreign (openaiChatToolResult ext toolUseId content) ↔ ResultFails ext toolUseId content := by
  unfold openaiChatToolResult ResultFails
  rw [withoutToolSearchMetadata_eq]
  cases hlookup : contentLookupFails content.toJson with
  | true => simp [foreign_bind, Raised.isConversion]
  | false =>
    simp only [Bool.false_eq_true, if_false, false_or]
    show Foreign (convertResultContent ext toolUseId (realContent content.toJson) >>= _) ↔ _
    rw [foreign_bind_left fun parts => not_foreign_pure _]
    cases hreal : realContent content.toJson with
    | arr items => exact foreign_convertResultItems ext toolUseId items
    | null | bool b | int n | float r | str t | obj fields =>
      exact foreign_convertResultValue ext toolUseId _ (by simp)

/-! ## Blocks -/

variable {ext} {mode : ReasoningReplayMode}

theorem not_foreign_assertNoForbidden (block : ContentBlock) :
    ¬ Foreign (assertNoForbiddenAssistantBlock block) := by
  unfold assertNoForbiddenAssistantBlock
  split_ifs
  · simp
  · split <;> simp [Raised.isConversion]

theorem not_foreign_addAssistantBlock (reasoning : Option String) (parts : AssistantParts)
    (block : ContentBlock) : ¬ Foreign (addAssistantBlock ext mode reasoning parts block) := by
  unfold addAssistantBlock
  split
  · simp
  · split
    · simp
    · simp
    · split_ifs <;> simp
    · split_ifs <;> simp
  · simp
  · simp
  · split_ifs
    · simp
    · rw [foreign_bind]
      rintro (h | ⟨_, -, h⟩)
      · exact not_foreign_assertNoForbidden block h
      · exact not_foreign_pure _ h

theorem not_foreign_mapM {f : α → Except Raised β} (hf : ∀ a, ¬ Foreign (f a)) (l : List α) :
    ¬ Foreign (l.mapM f) := by
  induction l with
  | nil => simp
  | cons a l ih =>
    rw [List.mapM_cons, foreign_bind]
    rintro (h | ⟨b, -, h⟩)
    · exact hf a h
    · rw [foreign_bind] at h
      rcases h with h | ⟨bs, -, h⟩
      · exact ih h
      · exact not_foreign_pure _ h

theorem not_foreign_convertAssistantMessage (content : List ContentBlock)
    (reasoning : Option String) :
    ¬ Foreign (convertAssistantMessage ext content mode reasoning) := by
  unfold convertAssistantMessage
  rw [foreign_bind, foreign_foldlM]
  rintro (⟨pre, block, post, parts, -, -, h⟩ | ⟨parts, -, h⟩)
  · exact not_foreign_addAssistantBlock reasoning parts block h
  · exact not_foreign_pure _ h

/-- Blocks that were allowed are converted when their turn ends. -/
theorem addAssistantBlock_returns (reasoning : Option String) (parts : AssistantParts)
    {block : ContentBlock} (h : assertNoForbiddenAssistantBlock block = .ok ()) :
    ∃ next, addAssistantBlock ext mode reasoning parts block = .ok next := by
  cases block with
  | thinking thinking =>
    unfold addAssistantBlock
    cases mode with
    | disabled | thinkTags => exact ⟨_, rfl⟩
    | reasoningContent | reasoning =>
      dsimp only
      split_ifs <;> exact ⟨_, rfl⟩
  | text text | redactedThinking data | toolUse id name input extraContent => exact ⟨_, rfl⟩
  | image source | document | toolResult id content | toolReference | toolSearchToolResult
  | serverToolUse name | webSearchToolResult | webFetchToolResult =>
    unfold addAssistantBlock
    dsimp only
    split_ifs
    · exact ⟨_, rfl⟩
    · rw [h]
      exact ⟨parts, rfl⟩

theorem mapM_assert {blocks : List ContentBlock} {units : List Unit}
    (h : blocks.mapM assertNoForbiddenAssistantBlock = .ok units) :
    ∀ block ∈ blocks, assertNoForbiddenAssistantBlock block = .ok () := by
  induction blocks generalizing units with
  | nil => simp
  | cons block blocks ih =>
    rw [List.mapM_cons] at h
    obtain ⟨u, hblock, h⟩ := bind_eq_ok.mp h
    obtain ⟨us, hblocks, -⟩ := bind_eq_ok.mp h
    exact List.forall_mem_cons.mpr ⟨hblock, ih hblocks⟩

/-- The blocks of a turn that wait for its results can be converted. -/
def ToolTurn.Deferrable (ext : Externals) (turn : ToolTurn) : Prop :=
  ∃ messages, turn.deferredMessages ext = .ok messages

theorem deferrable_of_allowed {turn : ToolTurn}
    (h : ∀ block ∈ turn.deferredBlocks, assertNoForbiddenAssistantBlock block = .ok ()) :
    turn.Deferrable ext := by
  unfold ToolTurn.Deferrable ToolTurn.deferredMessages
  split_ifs
  · exact ⟨[], rfl⟩
  · obtain ⟨parts, hparts⟩ := foldlM_returns
      (f := addAssistantBlock ext turn.reasoningReplay turn.topLevelReasoning)
      (fun parts block hblock => addAssistantBlock_returns _ parts (h block hblock)) {}
    exact ⟨_, by rw [convertAssistantMessage, hparts]; rfl⟩

theorem deferrable_of_convert {message : Message} {turn : ToolTurn}
    (h : convertMessageToSegment ext message mode = .ok (.toolTurn turn)) :
    turn.Deferrable ext := by
  obtain ⟨role, content, reasoningContent⟩ := message
  unfold convertMessageToSegment at h
  cases role with
  | user =>
    cases content with
    | str text => cases h
    | list blocks =>
      obtain ⟨messages, -, h⟩ := bind_eq_ok.mp h
      cases h
  | system =>
    obtain ⟨text, -, h⟩ := bind_eq_ok.mp h
    cases text <;> cases h
  | assistant =>
    cases content with
    | str text => cases h
    | list blocks =>
      dsimp only at h
      split_ifs at h
      · obtain ⟨units, hunits, h⟩ := bind_eq_ok.mp h
        obtain ⟨made, hmade, h⟩ := bind_eq_ok.mp h
        cases h
        obtain ⟨first, -, hmade⟩ := bind_eq_ok.mp hmade
        cases hmade
        refine deferrable_of_allowed fun block hblock => ?_
        obtain ⟨hmem, hkind⟩ := List.mem_filter.mp hblock
        exact mapM_assert hunits block
          (List.mem_filter.mpr ⟨(List.dropWhile_sublist _).mem hmem, hkind⟩)
      · obtain ⟨units, -, h⟩ := bind_eq_ok.mp h
        obtain ⟨made, -, h⟩ := bind_eq_ok.mp h
        cases h

theorem not_foreign_openaiSystemText (content : MessageContent) :
    ¬ Foreign (openaiSystemText content) := by
  unfold openaiSystemText
  split
  · simp
  · simp
  · rw [foreign_bind]
    rintro (h | ⟨texts, -, h⟩)
    · refine not_foreign_mapM (fun block => ?_) _ h
      split <;> simp [Raised.isConversion]
    · exact not_foreign_pure _ h

theorem not_foreign_preToolMessage (pre : List ContentBlock) (reasoning : Option String) :
    ¬ Foreign (preToolMessage ext pre mode reasoning) := by
  unfold preToolMessage
  split_ifs
  · simp
  · exact not_foreign_convertAssistantMessage pre reasoning

/-- Only user blocks are converted with images or tool results. -/
theorem not_foreign_convertMessage {message : Message}
    (h : ∀ blocks, ¬ (message.role = .user ∧ message.content = .list blocks)) :
    ¬ Foreign (convertMessageToSegment ext message mode) := by
  obtain ⟨role, content, reasoningContent⟩ := message
  unfold convertMessageToSegment
  cases role with
  | user =>
    cases content with
    | str text => simp
    | list blocks => exact absurd ⟨rfl, rfl⟩ (h blocks)
  | system =>
    dsimp only
    rw [foreign_bind]
    rintro (h | ⟨text, -, h⟩)
    · exact not_foreign_openaiSystemText content h
    · cases text <;> simp [Raised.isConversion] at h
  | assistant =>
    cases content with
    | str text => simp
    | list blocks =>
      dsimp only
      split_ifs
      · simp only [foreign_bind, not_foreign_pure, and_false, exists_false, or_false]
        rintro (h | ⟨units, -, h⟩)
        · exact not_foreign_mapM not_foreign_assertNoForbidden _ h
        · unfold convertAssistantMessageWithSplit at h
          simp only [foreign_bind, not_foreign_pure, and_false, exists_false, or_false] at h
          exact not_foreign_preToolMessage _ _ h
      · simp only [foreign_bind, not_foreign_pure, and_false, exists_false, or_false]
        rintro (h | ⟨units, -, h⟩)
        · exact not_foreign_mapM not_foreign_assertNoForbidden _ h
        · exact not_foreign_convertAssistantMessage _ _ h

/-- What breaks the conversion of a block of a user message. -/
def BlockFails (ext : Externals) : ContentBlock → Prop
  | .image source => ImageFails ext.library (.obj [("type", .str "image"), ("source", .obj source)])
  | .toolResult toolUseId content => ResultFails ext toolUseId content
  | _ => False

theorem foreign_addUserBlock (user : UserParts) (block : ContentBlock) :
    Foreign (addUserBlock ext user block) ↔ BlockFails ext block := by
  cases block with
  | image source =>
    unfold addUserBlock
    simp only [foreign_bind, not_foreign_pure, and_false, exists_false, or_false,
      foreign_openaiUserImageUrl, BlockFails]
  | toolResult toolUseId content =>
    unfold addUserBlock
    simp only [foreign_bind, not_foreign_pure, and_false, exists_false, or_false,
      foreign_openaiChatToolResult, BlockFails]
  | _ => simp [addUserBlock, BlockFails]

/-- The blocks after which the loop goes on. -/
def BlockPasses (ext : Externals) (block : ContentBlock) : Prop :=
  ∃ user, addUserBlock ext {} block = .ok user

theorem addUserBlock_returns (user : UserParts) (block : ContentBlock) :
    (∃ next, addUserBlock ext user block = .ok next) ↔ BlockPasses ext block := by
  unfold BlockPasses
  cases block with
  | image source =>
    simp only [addUserBlock, bind_eq_ok]
    constructor
    · rintro ⟨next, url, hurl, -⟩
      exact ⟨_, url, hurl, rfl⟩
    · rintro ⟨next, url, hurl, -⟩
      exact ⟨_, url, hurl, rfl⟩
  | toolResult toolUseId content =>
    simp only [addUserBlock, bind_eq_ok]
    constructor
    · rintro ⟨next, result, hresult, -⟩
      exact ⟨_, result, hresult, rfl⟩
    · rintro ⟨next, result, hresult, -⟩
      exact ⟨_, result, hresult, rfl⟩
  | _ => simp [addUserBlock]

/-- The first block that ends the loop of `_convert_user_message` breaks it. -/
def BlocksFail (ext : Externals) (blocks : List ContentBlock) : Prop :=
  ∃ pre block post, blocks = pre ++ block :: post ∧
    (∀ passed ∈ pre, BlockPasses ext passed) ∧ BlockFails ext block

theorem foreign_convertUserMessage (blocks : List ContentBlock) :
    Foreign (convertUserMessage ext blocks) ↔ BlocksFail ext blocks := by
  unfold convertUserMessage BlocksFail
  rw [foreign_bind_left fun user => not_foreign_pure _]
  exact foreign_loop addUserBlock_returns foreign_addUserBlock blocks {}

/-! ## The ledger -/

theorem foreign_drainSegments {segments : List TranscriptSegment}
    (hdeferred : ∀ turn, .toolTurn turn ∈ segments → turn.Deferrable ext)
    (output : List ChatMessage) (toolResults : Dict String ChatToolResult) :
    Foreign (drainSegments ext output toolResults segments) ↔
      repeatsReady toolResults segments = true := by
  induction segments generalizing output toolResults with
  | nil => simp [drainSegments, repeatsReady]
  | cons segment segments ih =>
    have hrest : ∀ turn, .toolTurn turn ∈ segments → turn.Deferrable ext :=
      fun turn hturn => hdeferred turn (List.mem_cons_of_mem _ hturn)
    cases segment with
    | plain messages => exact ih hrest _ _
    | toolTurn turn =>
      obtain ⟨deferred, hdone⟩ := hdeferred turn List.mem_cons_self
      unfold drainSegments repeatsReady
      by_cases hready : turn.requiredToolIds.all toolResults.contains = true
      · simp only [hready, if_true, Bool.true_and]
        by_cases hnodup : turn.requiredToolIds.Nodup
        · rw [popResults_nodup hready hnodup, hdone]
          simpa [hnodup, bind, Except.bind] using ih hrest _ _
        · obtain ⟨key, hkey⟩ := popResults_repeats hnodup toolResults
          simp [hkey, hnodup, foreign_bind, Raised.isConversion]
      · simp [hready]

/-- What every entry keeps: deferred blocks can be converted, and a recorded result answers
a call that is pending. -/
structure Tidy (ext : Externals) (segments : List TranscriptSegment)
    (toolResults : Dict String ChatToolResult) : Prop where
  deferred : ∀ turn, .toolTurn turn ∈ segments → turn.Deferrable ext
  recorded : ∀ id, toolResults.contains id = true → Pending segments id

theorem contains_withoutResults {ids : List String} {toolResults : Dict String ChatToolResult}
    {id : String} : (withoutResults toolResults ids).contains id = true ↔
      toolResults.contains id = true ∧ id ∉ ids := by
  unfold Dict.contains
  rw [get?_withoutResults]
  by_cases hid : id ∈ ids <;> simp [hid]

/-- After a complete turn the rest of the ledger is as it has to be. -/
theorem Tidy.tail {turn : ToolTurn} {segments : List TranscriptSegment}
    {toolResults : Dict String ChatToolResult}
    (h : Tidy ext (.toolTurn turn :: segments) toolResults) :
    Tidy ext segments (withoutResults toolResults turn.requiredToolIds) where
  deferred later hlater := h.deferred later (List.mem_cons_of_mem _ hlater)
  recorded id hid := by
    obtain ⟨hcontains, hnot⟩ := contains_withoutResults.mp hid
    obtain ⟨other, hmem, hother⟩ := h.recorded id hcontains
    rcases List.mem_cons.mp hmem with hsame | hmem
    · cases hsame
      exact absurd hother hnot
    · exact ⟨other, hmem, hother⟩

theorem Tidy.tail_plain {messages : List ChatMessage} {segments : List TranscriptSegment}
    {toolResults : Dict String ChatToolResult}
    (h : Tidy ext (.plain messages :: segments) toolResults) : Tidy ext segments toolResults where
  deferred turn hturn := h.deferred turn (List.mem_cons_of_mem _ hturn)
  recorded id hid := by
    obtain ⟨turn, hmem, hturn⟩ := h.recorded id hid
    rcases List.mem_cons.mp hmem with hsame | hmem
    · cases hsame
    · exact ⟨turn, hmem, hturn⟩

theorem Tidy.append {segments : List TranscriptSegment} {toolResults : Dict String ChatToolResult}
    (h : Tidy ext segments toolResults) {segment : TranscriptSegment}
    (hsegment : ∀ turn, segment = .toolTurn turn → turn.Deferrable ext) :
    Tidy ext (segments ++ [segment]) toolResults where
  deferred turn hturn := by
    rcases List.mem_append.mp hturn with hturn | hturn
    · exact h.deferred turn hturn
    · exact hsegment turn (List.mem_singleton.mp hturn).symm
  recorded id hid := by
    obtain ⟨turn, hmem, hturn⟩ := h.recorded id hid
    exact ⟨turn, List.mem_append_left _ hmem, hturn⟩

theorem Tidy.drain {segments : List TranscriptSegment} {toolResults : Dict String ChatToolResult}
    {output : List ChatMessage} {drained : Ledger} (h : Tidy ext segments toolResults)
    (hdrain : drainSegments ext output toolResults segments = .ok drained) :
    Tidy ext drained.segments drained.toolResults := by
  induction segments generalizing output toolResults with
  | nil =>
    cases hdrain
    exact h
  | cons segment segments ih =>
    cases segment with
    | plain messages => exact ih h.tail_plain hdrain
    | toolTurn turn =>
      rcases drainSegments_turn hdrain with ⟨-, rfl⟩ | ⟨-, -, deferred, -, hdrain⟩
      · refine ⟨fun later hlater => ?_, fun id hid => ?_⟩
        · rcases List.mem_cons.mp hlater with hsame | hlater
          · cases hsame
            exact h.deferred turn List.mem_cons_self
          · exact h.deferred later (List.mem_cons_of_mem _ hlater)
        · obtain ⟨other, hmem, hother⟩ := h.recorded id hid
          rcases List.mem_cons.mp hmem with hsame | hmem
          · cases hsame
            exact ⟨_, List.mem_cons_self, hother⟩
          · exact ⟨other, List.mem_cons_of_mem _ hmem, hother⟩
      · exact ih h.tail hdrain

theorem repeatsReady_plain (segments : List TranscriptSegment) (messages : List ChatMessage)
    (toolResults : Dict String ChatToolResult) :
    repeatsReady toolResults (segments ++ [.plain messages]) =
      repeatsReady toolResults segments := by
  induction segments generalizing toolResults with
  | nil => rfl
  | cons segment segments ih =>
    cases segment with
    | plain others => exact ih toolResults
    | toolTurn turn =>
      simp only [List.cons_append, repeatsReady]
      rw [ih]

/-- A turn that is new has no results yet, so it completes nothing. -/
theorem Tidy.repeatsReady_append {segments : List TranscriptSegment}
    {toolResults : Dict String ChatToolResult} (h : Tidy ext segments toolResults)
    (segment : TranscriptSegment) :
    repeatsReady toolResults (segments ++ [segment]) = repeatsReady toolResults segments := by
  cases segment with
  | plain messages => exact repeatsReady_plain segments messages toolResults
  | toolTurn new =>
    induction segments generalizing toolResults with
    | nil =>
      have hnone : ∀ id, toolResults.contains id = false := by
        intro id
        by_contra hid
        obtain ⟨turn, hmem, -⟩ := h.recorded id (Bool.eq_true_of_not_eq_false hid)
        cases hmem
      cases hids : new.requiredToolIds with
      | nil => simp [repeatsReady, hids]
      | cons id ids => simp [repeatsReady, hids, hnone]
    | cons segment segments ih =>
      cases segment with
      | plain others => exact ih h.tail_plain
      | toolTurn turn =>
        simp only [List.cons_append, repeatsReady]
        rw [ih h.tail]

/-! ## Entries -/

/-- The content of an entry breaks its conversion. -/
def Entry.Fails (ext : Externals) : Entry → Prop
  | .textBlocks blocks => BlocksFail ext blocks
  | .toolResult toolUseId content => ResultFails ext toolUseId content
  | .message _ | .drain => False

/-- The entry is converted and the ledger then drains. -/
def Entry.Drains (ext : Externals) (mode : ReasoningReplayMode) (ledger : Ledger) : Entry → Prop
  | .message m => ∃ segment, convertMessageToSegment ext m mode = .ok segment ∧
      segment ≠ .plain []
  | .textBlocks blocks => ∃ messages, convertUserMessage ext blocks = .ok messages ∧ messages ≠ []
  | .toolResult toolUseId content => (toolUseId = "" ∨ ¬ Pending ledger.segments toolUseId) ∧
      ∃ result, openaiChatToolResult ext toolUseId content = .ok result
  | .drain => True

def Ledger.Tidy (ext : Externals) (ledger : Ledger) : Prop :=
  Anthropic.Tidy ext ledger.segments ledger.toolResults

theorem foreign_addSegment {ledger : Ledger} (h : ledger.Tidy ext) {segment : TranscriptSegment}
    (hsegment : ∀ turn, segment = .toolTurn turn → turn.Deferrable ext) :
    Foreign (ledger.addSegment ext segment) ↔
      repeatsReady ledger.toolResults ledger.segments = true := by
  rw [← Anthropic.Tidy.repeatsReady_append h segment]
  exact foreign_drainSegments (h.append hsegment).deferred _ _

theorem foreign_addPlain {ledger : Ledger} (h : ledger.Tidy ext) (messages : List ChatMessage) :
    Foreign (ledger.addPlain ext messages) ↔
      messages ≠ [] ∧ repeatsReady ledger.toolResults ledger.segments = true := by
  unfold Ledger.addPlain
  cases messages with
  | nil => simp
  | cons message messages =>
    have hplain : ∀ turn, TranscriptSegment.plain (message :: messages) = .toolTurn turn →
        turn.Deferrable ext := by simp
    simpa using foreign_addSegment h hplain

theorem foreign_addTranscriptSegment {ledger : Ledger} (h : ledger.Tidy ext)
    {segment : TranscriptSegment}
    (hsegment : ∀ turn, segment = .toolTurn turn → turn.Deferrable ext) :
    Foreign (ledger.addTranscriptSegment ext segment) ↔
      segment ≠ .plain [] ∧ repeatsReady ledger.toolResults ledger.segments = true := by
  cases segment with
  | plain messages =>
    unfold Ledger.addTranscriptSegment
    rw [foreign_addPlain h]
    simp
  | toolTurn turn =>
    unfold Ledger.addTranscriptSegment
    rw [foreign_addSegment h hsegment]
    simp

theorem foreign_feed {ledger : Ledger} (h : ledger.Tidy ext) {entry : Entry}
    (hproper : entry.Proper) :
    Foreign (ledger.feed ext mode entry) ↔ entry.Fails ext ∨
      entry.Drains ext mode ledger ∧ repeatsReady ledger.toolResults ledger.segments = true := by
  cases entry with
  | message message =>
    simp only [Ledger.feed, foreign_bind, not_foreign_convertMessage hproper, Entry.Fails,
      Entry.Drains, false_or]
    constructor
    · rintro ⟨segment, hsegment, hforeign⟩
      have hdeferrable : ∀ turn, segment = .toolTurn turn → turn.Deferrable ext := by
        rintro turn rfl
        exact deferrable_of_convert hsegment
      obtain ⟨hplain, hready⟩ := (foreign_addTranscriptSegment h hdeferrable).mp hforeign
      exact ⟨⟨segment, hsegment, hplain⟩, hready⟩
    · rintro ⟨⟨segment, hsegment, hplain⟩, hready⟩
      have hdeferrable : ∀ turn, segment = .toolTurn turn → turn.Deferrable ext := by
        rintro turn rfl
        exact deferrable_of_convert hsegment
      exact ⟨segment, hsegment, (foreign_addTranscriptSegment h hdeferrable).mpr ⟨hplain, hready⟩⟩
  | textBlocks blocks =>
    simp only [Ledger.feed, Ledger.addTextBlocks, Entry.Fails, Entry.Drains]
    cases blocks with
    | nil =>
      have hnone : convertUserMessage ext [] = .ok [] := rfl
      simp [BlocksFail, hnone]
    | cons block blocks =>
      simp only [List.isEmpty_cons, Bool.false_eq_true, if_false, foreign_bind,
        foreign_convertUserMessage, foreign_addPlain h]
      tauto
  | toolResult toolUseId content =>
    simp only [Ledger.feed, Ledger.recordToolResult, Entry.Fails, Entry.Drains]
    by_cases hblank : toolUseId = ""
    · simp only [hblank, if_true, convertUserMessage_result, foreign_bind, foreign_map,
        foreign_openaiChatToolResult, foreign_addPlain h, true_or, true_and]
      refine or_congr_right ?_
      constructor
      · rintro ⟨messages, hmessages, -, hready⟩
        cases hresult : openaiChatToolResult ext "" content with
        | error e =>
          rw [hresult] at hmessages
          cases hmessages
        | ok result => exact ⟨⟨result, rfl⟩, hready⟩
      · rintro ⟨⟨result, hresult⟩, hready⟩
        exact ⟨_, by rw [hresult]; rfl, List.cons_ne_nil _ _, hready⟩
    · simp only [hblank, if_false, foreign_bind, foreign_openaiChatToolResult, false_or]
      refine or_congr_right ?_
      constructor
      · rintro ⟨result, hresult, hforeign⟩
        by_cases hpending : ledger.hasPendingToolId toolUseId = true
        · simp only [hpending, if_true] at hforeign
          split_ifs at hforeign <;> simp [Raised.isConversion] at hforeign
        · simp only [hpending, Bool.false_eq_true, if_false] at hforeign
          rw [hasPendingToolId_iff] at hpending
          exact ⟨⟨hpending, result, hresult⟩, ((foreign_addPlain h _).mp hforeign).2⟩
      · rintro ⟨⟨hpending, result, hresult⟩, hready⟩
        refine ⟨result, hresult, ?_⟩
        rw [← hasPendingToolId_iff] at hpending
        simp only [hpending, Bool.false_eq_true, if_false]
        exact (foreign_addPlain h _).mpr ⟨List.cons_ne_nil _ _, hready⟩
  | drain =>
    simp only [Ledger.feed, Entry.Fails, Entry.Drains, false_or, true_and]
    exact foreign_drainSegments h.deferred _ _

theorem Ledger.Tidy.addSegment {ledger next : Ledger} (h : ledger.Tidy ext)
    {segment : TranscriptSegment}
    (hsegment : ∀ turn, segment = .toolTurn turn → turn.Deferrable ext)
    (hnext : ledger.addSegment ext segment = .ok next) : next.Tidy ext :=
  Anthropic.Tidy.drain (h.append hsegment) hnext

theorem Ledger.Tidy.addPlain {ledger next : Ledger} (h : ledger.Tidy ext)
    {messages : List ChatMessage} (hnext : ledger.addPlain ext messages = .ok next) :
    next.Tidy ext := by
  unfold Ledger.addPlain at hnext
  split_ifs at hnext
  · cases hnext
    exact h
  · exact h.addSegment (by simp) hnext

/-- A result that is recorded answers a pending call. -/
theorem Ledger.Tidy.record {ledger : Ledger} (h : ledger.Tidy ext) {id : String}
    (result : ChatToolResult) (hpending : ledger.hasPendingToolId id = true) :
    Anthropic.Tidy ext ledger.segments (ledger.toolResults.set id result) where
  deferred := h.deferred
  recorded other hother := by
    by_cases hsame : other = id
    · rw [hsame, ← hasPendingToolId_iff]
      exact hpending
    · rw [Dict.contains, Dict.get?_set_of_ne _ _ hsame] at hother
      exact h.recorded other hother

/-- The step lemma. -/
theorem Ledger.Tidy.feed {ledger next : Ledger} (h : ledger.Tidy ext) {entry : Entry}
    (hnext : ledger.feed ext mode entry = .ok next) : next.Tidy ext := by
  cases entry with
  | message message =>
    obtain ⟨segment, hsegment, hnext⟩ := bind_eq_ok.mp hnext
    cases segment with
    | plain messages => exact h.addPlain hnext
    | toolTurn turn =>
      refine h.addSegment ?_ hnext
      rintro other hother
      cases hother
      exact deferrable_of_convert hsegment
  | textBlocks blocks =>
    simp only [Ledger.feed, Ledger.addTextBlocks] at hnext
    split_ifs at hnext
    · cases hnext
      exact h
    · obtain ⟨messages, -, hnext⟩ := bind_eq_ok.mp hnext
      exact h.addPlain hnext
  | toolResult toolUseId content =>
    rcases recordToolResult_cases hnext with ⟨-, result, -, hplain⟩ | ⟨-, hpending, -, hrecorded⟩
    · exact h.addPlain hplain
    · obtain ⟨result, -, rfl⟩ := hrecorded
      exact h.record result hpending
  | drain => exact Anthropic.Tidy.drain h hnext

theorem tidy_run {entries : List Entry} {ledger : Ledger}
    (h : entries.foldlM (Ledger.feed ext mode) {} = .ok ledger) : ledger.Tidy ext := by
  refine foldlM_ok_invariant (P := fun _ (ledger : Ledger) => ledger.Tidy ext)
    (fun _ _ _ _ hledger hnext => hledger.feed hnext) ?_ h
  exact ⟨fun turn hturn => absurd hturn List.not_mem_nil, fun id hid => by cases hid⟩

theorem not_foreign_deferredMessages (turn : ToolTurn) : ¬ Foreign (turn.deferredMessages ext) := by
  unfold ToolTurn.deferredMessages
  split_ifs
  · simp
  · simp only [foreign_bind, not_foreign_pure, and_false, exists_false, or_false]
    exact not_foreign_convertAssistantMessage _ _

theorem not_foreign_emitSegments (segments : List TranscriptSegment) (output : List ChatMessage)
    (toolResults : Dict String ChatToolResult) :
    ¬ Foreign (Ledger.emitSegments ext output toolResults segments) := by
  induction segments generalizing output toolResults with
  | nil => simp [Ledger.emitSegments]
  | cons segment segments ih =>
    cases segment with
    | plain messages => exact ih _ _
    | toolTurn turn =>
      unfold Ledger.emitSegments
      rw [foreign_bind]
      rintro (h | ⟨deferred, -, h⟩)
      · exact not_foreign_deferredMessages turn h
      · exact ih _ _ h

theorem not_foreign_close (ledger : Ledger) : ¬ Foreign (ledger.close ext) := by
  unfold Ledger.close
  split_ifs
  · simp [Raised.isConversion]
  · exact not_foreign_emitSegments _ _ _

/-- A history is reached at an entry that breaks its conversion, or at one that completes a
turn with a repeated id. -/
def Breaks (ext : Externals) (mode : ReasoningReplayMode) (messages : List Message) : Prop :=
  ∃ pre entry post ledger, entriesOf messages = pre ++ entry :: post ∧
    pre.foldlM (Ledger.feed ext mode) {} = .ok ledger ∧
    (entry.Fails ext ∨
      entry.Drains ext mode ledger ∧ repeatsReady ledger.toolResults ledger.segments = true)

/-- `convert_messages` raises only its own error exactly where no entry that is reached breaks
its conversion and no turn is completed that repeats an id. -/
theorem convertMessages_raises (ext : Externals) (mode : ReasoningReplayMode)
    (messages : List Message) :
    (∀ e, convertMessages ext messages mode = .error e → e.isConversion = true) ↔
      ¬ Breaks ext mode messages := by
  have hforeign : Foreign (convertMessages ext messages mode) ↔ Breaks ext mode messages := by
    rw [convertMessages_eq]
    simp only [foreign_bind, not_foreign_close, not_foreign_pure, and_false, exists_false, or_false,
      foreign_foldlM]
    constructor
    · rintro ⟨pre, entry, post, ledger, hentries, hpre, hentry⟩
      have hproper : entry.Proper := entriesOf_proper messages entry (by simp [hentries])
      exact ⟨pre, entry, post, ledger, hentries, hpre,
        (foreign_feed (tidy_run hpre) hproper).mp hentry⟩
    · rintro ⟨pre, entry, post, ledger, hentries, hpre, hentry⟩
      have hproper : entry.Proper := entriesOf_proper messages entry (by simp [hentries])
      exact ⟨pre, entry, post, ledger, hentries, hpre,
        (foreign_feed (tidy_run hpre) hproper).mpr hentry⟩
  rw [← hforeign]
  unfold Foreign
  constructor
  · rintro h ⟨e, he, hother⟩
    rw [h e he] at hother
    cases hother
  · intro h e he
    by_contra hother
    exact h ⟨e, he, Bool.eq_false_iff.mpr hother⟩

section Example

/-- One assistant message calls twice with one id, and one result answers. -/
def repeatedCall : List Message :=
  [{ role := .assistant
     content := .list [.toolUse "toolu_1" "read" [] .null, .toolUse "toolu_1" "read" [] .null] },
    { role := .user, content := .list [.toolResult "toolu_1" (.str "done")] }]

def raisesForeign (x : Except Raised (List ChatMessage)) : Bool :=
  match x with
  | .error e => !e.isConversion
  | .ok _ => false

theorem repeated_call_escapes : ¬ ∀ (messages : List Message) (mode : ReasoningReplayMode) e,
    convertMessages sampleExternals messages mode = .error e → e.isConversion = true := by
  intro h
  have hraises :
      raisesForeign (convertMessages sampleExternals repeatedCall .thinkTags) = true := by
    decide +kernel
  unfold raisesForeign at hraises
  split at hraises
  · next e he => simp [h _ _ e he] at hraises
  · cases hraises

/-- A JSON schema with a property called `type`, inside a tool result. -/
example : raisesForeign (convertMessages sampleExternals
    [{ role := .user
       content := .list [.toolResult "toolu_1" (.list [.obj [("type", .str "json"),
         ("properties", .obj [("type", .obj [("type", .str "string")])])]])] }] .thinkTags) =
    true := by
  decide +kernel

end Example

end Switchboard.Core.Anthropic
