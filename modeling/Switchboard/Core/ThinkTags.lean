import Switchboard.Library.TextSearch

/-!
# Thinking tags

The streaming parser for the thinking tags of providers. A text is a list of characters, and the
fragments that the parser gives are compared with the pieces that one pass over the whole text
finds.
-/

namespace Switchboard.Core.ThinkTags

open Switchboard.TextSearch

inductive ContentType
  | text
  | thinking
  deriving DecidableEq, Repr

structure ContentChunk where
  type : ContentType
  content : List Char
  deriving DecidableEq, Repr

def openTag : List Char := ['<', 't', 'h', 'i', 'n', 'k', '>']

def closeTag : List Char := ['<', '/', 't', 'h', 'i', 'n', 'k', '>']

def summaryOpenTag : List Char := ['<', 's', 'u', 'm', 'm', 'a', 'r', 'y', '>']

def summaryCloseTag : List Char := ['<', '/', 's', 'u', 'm', 'm', 'a', 'r', 'y', '>']

def openTags : List (List Char) := [openTag, summaryOpenTag]

def closeTags : List (List Char) := [closeTag, summaryCloseTag]

structure ThinkTagParser where
  buffer : List Char
  inThinkTag : Bool
  deriving DecidableEq, Repr

def ThinkTagParser.new : ThinkTagParser := ⟨[], false⟩

/-- The type of what is read in either state. -/
def contentType (inThinkTag : Bool) : ContentType :=
  if inThinkTag then .thinking else .text

/-- A fragment, unless it would be empty. -/
def chunk (type : ContentType) (content : List Char) : Option ContentChunk :=
  if content = [] then none else some ⟨type, content⟩

/-- The earliest place of a tag, and the tag. -/
def findFirst (buffer : List Char) (tags : List (List Char)) : Option (Nat × List Char) :=
  tags.foldl (fun earliest tag =>
    match find tag buffer, earliest with
    | some index, none => some (index, tag)
    | some index, some found => if index < found.1 then some (index, tag) else earliest
    | none, _ => earliest) none

/-- The end of the branches that find no tag: a last bracket that may begin a tag is held back. -/
def ThinkTagParser.holdBack (p : ThinkTagParser) (type : ContentType)
    (mayBegin : List Char → Bool) : Option ContentChunk × ThinkTagParser :=
  match rfind ['<'] p.buffer with
  | some lastBracket =>
    if mayBegin (p.buffer.drop lastBracket) then
      (chunk type (p.buffer.take lastBracket), { p with buffer := p.buffer.drop lastBracket })
    else (chunk type p.buffer, { p with buffer := [] })
  | none => (chunk type p.buffer, { p with buffer := [] })

def ThinkTagParser.parseOutsideThink (p : ThinkTagParser) :
    Option ContentChunk × ThinkTagParser :=
  let opening := findFirst p.buffer openTags
  let orphan := (findFirst p.buffer closeTags).filter fun close =>
    opening.all fun found => close.1 < found.1
  match orphan with
  | some (orphanClose, tag) =>
    (chunk .text (p.buffer.take orphanClose),
      { p with buffer := p.buffer.drop (orphanClose + tag.length) })
  | none =>
    match opening with
    | none =>
      p.holdBack .text fun potentialTag => (openTags ++ closeTags).any fun tag =>
        potentialTag.length < tag.length && potentialTag.isPrefixOf tag
    | some (thinkStart, tag) =>
      (chunk .text (p.buffer.take thinkStart),
        { buffer := p.buffer.drop (thinkStart + tag.length), inThinkTag := true })

def longestClose : Nat := (closeTags.map List.length).foldl max 0

def ThinkTagParser.parseInsideThink (p : ThinkTagParser) :
    Option ContentChunk × ThinkTagParser :=
  match findFirst p.buffer closeTags with
  | none =>
    p.holdBack .thinking fun potentialTag =>
      potentialTag.length < longestClose && closeTags.any fun tag => potentialTag.isPrefixOf tag
  | some (thinkEnd, tag) =>
    (chunk .thinking (p.buffer.take thinkEnd),
      { buffer := p.buffer.drop (thinkEnd + tag.length), inThinkTag := false })

def ThinkTagParser.parse (p : ThinkTagParser) : Option ContentChunk × ThinkTagParser :=
  if p.inThinkTag then p.parseInsideThink else p.parseOutsideThink

/-- The loop of `feed`. Each round but the last takes something from the buffer, so the length of
the buffer is fuel enough. -/
def feedLoop : Nat → ThinkTagParser → List ContentChunk × ThinkTagParser
  | 0, p => ([], p)
  | fuel + 1, p =>
    if p.buffer = [] then ([], p)
    else
      match p.parse with
      | (some found, q) => (found :: (feedLoop fuel q).1, (feedLoop fuel q).2)
      | (none, q) => if q.buffer.length = p.buffer.length then ([], q) else feedLoop fuel q

def ThinkTagParser.feed (p : ThinkTagParser) (content : List Char) :
    List ContentChunk × ThinkTagParser :=
  let p := { p with buffer := p.buffer ++ content }
  feedLoop p.buffer.length p

def ThinkTagParser.flush (p : ThinkTagParser) : Option ContentChunk × ThinkTagParser :=
  (chunk (contentType p.inThinkTag) p.buffer, { p with buffer := [] })

/-- What feeding the chunks of a text and then flushing gives. -/
def ThinkTagParser.fragments : ThinkTagParser → List (List Char) → List ContentChunk
  | p, [] => p.flush.1.toList
  | p, content :: chunks => (p.feed content).1 ++ (p.feed content).2.fragments chunks

example : ThinkTagParser.new.fragments [['a', '<', 't', 'h', 'i'], ['n', 'k', '>', 'b', '<']]
    = [⟨.text, ['a']⟩, ⟨.thinking, ['b']⟩, ⟨.thinking, ['<']⟩] := by decide

/-- One fragment before others: fragments of one type that are next to each other are merged. -/
def joined (first : ContentChunk) : List ContentChunk → List ContentChunk
  | [] => [first]
  | second :: rest =>
    if first.type = second.type then ⟨first.type, first.content ++ second.content⟩ :: rest
    else first :: second :: rest

def merged (fragments : List ContentChunk) : List ContentChunk :=
  fragments.foldr joined []

/-! ### One pass over the whole text -/

/-- The tags that count in either state. Inside a thinking tag only closing tags do. -/
def recognisedTags (inThinkTag : Bool) : List (List Char) :=
  if inThinkTag then closeTags else openTags ++ closeTags

/-- The tag that is recognised at the beginning of a text. -/
def tagAt (inThinkTag : Bool) (text : List Char) : Option (List Char) :=
  (recognisedTags inThinkTag).find? (·.isPrefixOf text)

inductive Piece
  | tag (text : List Char)
  | char (type : ContentType) (value : Char)
  deriving DecidableEq, Repr

/-- A text, read from the left: every recognised tag is a piece, and so is every other character.
The number says how many characters are still part of the last tag. -/
def pieces : Bool → Nat → List Char → List Piece
  | _, _, [] => []
  | inThinkTag, skip + 1, _ :: text => pieces inThinkTag skip text
  | inThinkTag, 0, c :: text =>
    match tagAt inThinkTag (c :: text) with
    | some tag => .tag tag :: pieces (openTags.contains tag) (tag.length - 1) text
    | none => .char (contentType inThinkTag) c :: pieces inThinkTag 0 text

def Piece.source : Piece → List Char
  | .tag text => text
  | .char _ c => [c]

/-- The characters that are left without the tags. -/
def Piece.content : Piece → List Char
  | .tag _ => []
  | .char _ c => [c]

def Piece.typed : Piece → List (ContentType × Char)
  | .tag _ => []
  | .char type c => [(type, c)]

def ContentChunk.typed (fragment : ContentChunk) : List (ContentType × Char) :=
  fragment.content.map (fragment.type, ·)

/-! ### The tags -/

theorem recognisedTags_shape {inThinkTag : Bool} {tag : List Char}
    (htag : tag ∈ recognisedTags inThinkTag) : tag.head? = some '<' ∧ '<' ∉ tag.tail := by
  have hall : ∀ tag ∈ openTags ++ closeTags, tag.head? = some '<' ∧ '<' ∉ tag.tail := by decide
  apply hall
  cases inThinkTag with
  | false => exact htag
  | true => exact List.mem_append_right _ htag

theorem recognisedTags_ne_nil {inThinkTag : Bool} {tag : List Char}
    (htag : tag ∈ recognisedTags inThinkTag) : tag ≠ [] := by
  rintro rfl
  cases (recognisedTags_shape htag).1

/-- No tag begins with another one. -/
theorem recognisedTags_apart {inThinkTag : Bool} {tag other : List Char}
    (htag : tag ∈ recognisedTags inThinkTag) (hother : other ∈ recognisedTags inThinkTag)
    (hpre : tag <+: other) : tag = other := by
  have hall : ∀ inThinkTag : Bool, ∀ tag ∈ recognisedTags inThinkTag,
      ∀ other ∈ recognisedTags inThinkTag, tag.isPrefixOf other = true → tag = other := by decide
  exact hall inThinkTag tag htag other hother (List.isPrefixOf_iff_prefix.mpr hpre)

theorem tagAt_eq_none {inThinkTag : Bool} {text : List Char} :
    tagAt inThinkTag text = none ↔ ∀ tag ∈ recognisedTags inThinkTag, ¬ tag <+: text := by
  simp [tagAt, List.isPrefixOf_iff_prefix]

theorem tagAt_eq_some {inThinkTag : Bool} {tag text : List Char}
    (h : tagAt inThinkTag text = some tag) : tag ∈ recognisedTags inThinkTag ∧ tag <+: text := by
  rw [tagAt] at h
  exact ⟨List.mem_of_find?_eq_some h, by simpa using List.find?_some h⟩

theorem tagAt_of_prefix {inThinkTag : Bool} {tag text : List Char}
    (htag : tag ∈ recognisedTags inThinkTag) (hpre : tag <+: text) :
    tagAt inThinkTag text = some tag := by
  cases hfound : tagAt inThinkTag text with
  | none => exact absurd hpre (tagAt_eq_none.mp hfound tag htag)
  | some other =>
    obtain ⟨hmem, hother⟩ := tagAt_eq_some hfound
    obtain hle | hle := List.prefix_or_prefix_of_prefix hpre hother
    · rw [recognisedTags_apart htag hmem hle]
    · rw [recognisedTags_apart hmem htag hle]

theorem findFirst_append (buffer : List Char) (tags : List (List Char)) (tag : List Char) :
    findFirst buffer (tags ++ [tag]) = match find tag buffer, findFirst buffer tags with
      | some index, none => some (index, tag)
      | some index, some found => if index < found.1 then some (index, tag) else some found
      | none, earliest => earliest := by
  rw [findFirst, List.foldl_append, ← findFirst, List.foldl_cons, List.foldl_nil]
  cases find tag buffer <;> cases findFirst buffer tags <;> rfl

theorem findFirst_none {buffer : List Char} {tags : List (List Char)}
    (hne : ∀ tag ∈ tags, tag ≠ []) (h : findFirst buffer tags = none) :
    ∀ tag ∈ tags, ∀ i, ¬ tag <+: buffer.drop i := by
  induction tags using List.reverseRecOn with
  | nil => simp
  | append_singleton tags last ih =>
    rw [findFirst_append] at h
    cases hlast : find last buffer with
    | some index =>
      rw [hlast] at h
      cases hrest : findFirst buffer tags with
      | none => simp [hrest] at h
      | some found => simp only [hrest] at h; split_ifs at h
    | none =>
      rw [hlast] at h
      intro tag htag
      obtain htag | htag := List.mem_append.mp htag
      · exact ih (fun t ht => hne t (List.mem_append_left _ ht)) h tag htag
      · cases List.mem_singleton.mp htag
        exact (find_eq_none (hne last (by simp))).mp hlast

theorem findFirst_some {buffer : List Char} {tags : List (List Char)} {i : Nat} {tag : List Char}
    (hne : ∀ tag ∈ tags, tag ≠ []) (h : findFirst buffer tags = some (i, tag)) :
    tag ∈ tags ∧ tag <+: buffer.drop i ∧ ∀ other ∈ tags, ∀ j < i, ¬ other <+: buffer.drop j := by
  induction tags using List.reverseRecOn generalizing i tag with
  | nil => cases h
  | append_singleton tags last ih =>
    rw [findFirst_append] at h
    have hrestNe : ∀ t ∈ tags, t ≠ [] := fun t ht => hne t (List.mem_append_left _ ht)
    have hlastNe : last ≠ [] := hne last (by simp)
    have hsplit : ∀ {i}, (∀ other ∈ tags, ∀ j < i, ¬ other <+: buffer.drop j) →
        (∀ j < i, ¬ last <+: buffer.drop j) →
        ∀ other ∈ tags ++ [last], ∀ j < i, ¬ other <+: buffer.drop j := by
      intro i hrest hlast other hother
      obtain hother | hother := List.mem_append.mp hother
      · exact hrest other hother
      · cases List.mem_singleton.mp hother
        exact hlast
    cases hlast : find last buffer with
    | none =>
      rw [hlast] at h
      obtain ⟨hmem, hocc, hfirst⟩ := ih hrestNe h
      have hno := (find_eq_none hlastNe).mp hlast
      exact ⟨List.mem_append_left _ hmem, hocc, hsplit hfirst fun j _ => hno j⟩
    | some index =>
      rw [hlast] at h
      obtain ⟨hlastOcc, hlastFirst⟩ := find_eq_some hlastNe hlast
      cases hrest : findFirst buffer tags with
      | none =>
        simp only [hrest, Option.some.injEq, Prod.mk.injEq] at h
        obtain ⟨rfl, rfl⟩ := h
        have hno := findFirst_none hrestNe hrest
        exact ⟨by simp, hlastOcc, hsplit (fun other ho j _ => hno other ho j) hlastFirst⟩
      | some found =>
        obtain ⟨hmem, hocc, hfirst⟩ := ih hrestNe hrest
        simp only [hrest] at h
        split_ifs at h with hlt
        · simp only [Option.some.injEq, Prod.mk.injEq] at h
          obtain ⟨rfl, rfl⟩ := h
          exact ⟨by simp, hlastOcc,
            hsplit (fun other ho j hj => hfirst other ho j (by omega)) hlastFirst⟩
        · simp only [Option.some.injEq] at h
          subst h
          exact ⟨List.mem_append_left _ hmem, hocc,
            hsplit hfirst fun j hj => hlastFirst j (by omega)⟩

/-! ### One round of the loop -/

/-- No tag begins among the first `n` characters. -/
def Clear (inThinkTag : Bool) (text : List Char) (n : Nat) : Prop :=
  ∀ tag ∈ recognisedTags inThinkTag, ∀ i < n, ¬ tag <+: text.drop i

/-- A tag is found behind `i` characters that begin none. -/
def ThinkTagParser.TakesTag (p : ThinkTagParser) (i : Nat) (tag : List Char) : Prop :=
  tag ∈ recognisedTags p.inThinkTag ∧ tag <+: p.buffer.drop i ∧ Clear p.inThinkTag p.buffer i

/-- There is no tag, and the first `i` characters begin none whatever comes later. -/
def ThinkTagParser.TakesText (p : ThinkTagParser) (i : Nat) : Prop :=
  Clear p.inThinkTag p.buffer p.buffer.length ∧
    i ≤ p.buffer.length ∧ ∀ more, Clear p.inThinkTag (p.buffer ++ more) i

theorem clear_append {inThinkTag : Bool} {text : List Char} {n : Nat} (more : List Char)
    (hclear : Clear inThinkTag text n) (hmark : text[n]? = some '<') :
    Clear inThinkTag (text ++ more) n := by
  intro tag htag i hi
  exact not_prefix_append_of_mark (recognisedTags_shape htag).2 hmark hi (hclear tag htag i hi)

theorem ThinkTagParser.holdBack_cases (p : ThinkTagParser) {mayBegin : List Char → Bool}
    (hclear : Clear p.inThinkTag p.buffer p.buffer.length)
    (hmay : ∀ tag ∈ recognisedTags p.inThinkTag, ∀ part, part <+: tag → part.length < tag.length →
      mayBegin part = true) :
    ∃ i, p.TakesText i ∧ p.holdBack (contentType p.inThinkTag) mayBegin
      = (chunk (contentType p.inThinkTag) (p.buffer.take i),
        { p with buffer := p.buffer.drop i }) := by
  have hbracket : (['<'] : List Char) ≠ [] := by simp
  have hall : (∀ i, p.buffer[i]? = some '<' → (∃ j, i < j ∧ p.buffer[j]? = some '<') ∨
      mayBegin (p.buffer.drop i) = false) → p.TakesText p.buffer.length := by
    intro hlast
    refine ⟨hclear, le_rfl, ?_⟩
    intro more tag htag i hi
    obtain ⟨hhead, htail⟩ := recognisedTags_shape htag
    by_cases hmark : p.buffer[i]? = some '<'
    · obtain ⟨j, hij, hj⟩ | hno := hlast i hmark
      · exact not_prefix_append_of_mark htail hj hij (hclear tag htag i hi)
      · intro hocc
        rw [List.drop_append_of_le_length (by omega)] at hocc
        obtain hwhole | hpart := List.prefix_or_prefix_of_prefix hocc (List.prefix_append _ more)
        · exact hclear tag htag i hi hwhole
        · by_cases hlt : (p.buffer.drop i).length < tag.length
          · rw [hmay tag htag _ hpart hlt] at hno
            cases hno
          · have heq := List.IsPrefix.eq_of_length_le hpart (by omega)
            exact hclear tag htag i hi (by rw [heq])
    · exact not_prefix_append_of_head hhead hi hmark
  have hnothing : p.TakesText p.buffer.length → ∃ i, p.TakesText i ∧
      (chunk (contentType p.inThinkTag) p.buffer, { p with buffer := [] })
        = (chunk (contentType p.inThinkTag) (p.buffer.take i),
          { p with buffer := p.buffer.drop i }) := by
    intro htakes
    exact ⟨p.buffer.length, htakes, by simp⟩
  rw [holdBack]
  cases hfound : rfind ['<'] p.buffer with
  | none =>
    have hno := (rfind_eq_none hbracket).mp hfound
    apply hnothing
    apply hall
    intro i hi
    exact absurd (singleton_prefix_drop.mpr hi) (hno i)
  | some last =>
    obtain ⟨hocc, hlast⟩ := rfind_eq_some hbracket hfound
    have hmark := singleton_prefix_drop.mp hocc
    have hlt : last < p.buffer.length := (List.getElem?_eq_some_iff.mp hmark).1
    simp only
    split_ifs with hbegin
    · have hbefore : Clear p.inThinkTag p.buffer last :=
        fun tag htag i hi => hclear tag htag i (by omega)
      exact ⟨last, ⟨hclear, by omega, fun more => clear_append more hbefore hmark⟩, rfl⟩
    · apply hnothing
      apply hall
      intro i hi
      obtain hil | rfl | hli := lt_trichotomy i last
      · exact .inl ⟨last, hil, hmark⟩
      · exact .inr (Bool.eq_false_iff.mpr hbegin)
      · exact absurd (singleton_prefix_drop.mpr hi) (hlast i hli)

theorem openTags_ne_nil : ∀ tag ∈ openTags, tag ≠ [] := by decide

theorem closeTags_ne_nil : ∀ tag ∈ closeTags, tag ≠ [] := by decide

/-- What one round takes from the buffer. -/
theorem ThinkTagParser.parse_cases (p : ThinkTagParser) :
    (∃ i tag, p.TakesTag i tag ∧ p.parse = (chunk (contentType p.inThinkTag) (p.buffer.take i),
      ⟨p.buffer.drop (i + tag.length), openTags.contains tag⟩)) ∨
    ∃ i, p.TakesText i ∧ p.parse
      = (chunk (contentType p.inThinkTag) (p.buffer.take i),
        { p with buffer := p.buffer.drop i }) := by
  obtain ⟨buffer, inThinkTag⟩ := p
  cases inThinkTag with
  | true =>
    rw [parse, if_pos rfl, parseInsideThink]
    cases hclose : findFirst buffer closeTags with
    | some found =>
      obtain ⟨hmem, hocc, hfirst⟩ := findFirst_some closeTags_ne_nil hclose
      have hnotOpen : ∀ tag ∈ closeTags, openTags.contains tag = false := by decide
      left
      exact ⟨found.1, found.2, ⟨hmem, hocc, hfirst⟩, by rw [hnotOpen _ hmem]; rfl⟩
    | none =>
      right
      have hno := findFirst_none closeTags_ne_nil hclose
      apply holdBack_cases ⟨buffer, true⟩ (fun tag htag i _ => hno tag htag i)
      intro tag htag part hpart hlt
      have hlongest : ∀ tag ∈ closeTags, tag.length ≤ longestClose := by decide
      have hle := hlongest tag htag
      simp only [Bool.and_eq_true, decide_eq_true_eq, List.any_eq_true]
      exact ⟨by omega, tag, htag, List.isPrefixOf_iff_prefix.mpr hpart⟩
  | false =>
    have hall : recognisedTags false = openTags ++ closeTags := rfl
    rw [parse, if_neg (by simp), parseOutsideThink]
    cases hopen : findFirst buffer openTags with
    | none =>
      have hnoOpen := findFirst_none openTags_ne_nil hopen
      cases hclose : findFirst buffer closeTags with
      | none =>
        have hnoClose := findFirst_none closeTags_ne_nil hclose
        right
        have hno : ∀ tag ∈ recognisedTags false, ∀ i, ¬ tag <+: buffer.drop i := by
          intro tag htag
          obtain htag | htag := List.mem_append.mp htag
          · exact hnoOpen tag htag
          · exact hnoClose tag htag
        apply holdBack_cases ⟨buffer, false⟩ (fun tag htag i _ => hno tag htag i)
        intro tag htag part hpart hlt
        simp only [Bool.and_eq_true, decide_eq_true_eq, List.any_eq_true]
        exact ⟨tag, htag, hlt, List.isPrefixOf_iff_prefix.mpr hpart⟩
      | some found =>
        obtain ⟨hmem, hocc, hfirst⟩ := findFirst_some closeTags_ne_nil hclose
        have hnotOpen : ∀ tag ∈ closeTags, openTags.contains tag = false := by decide
        left
        refine ⟨found.1, found.2, ⟨List.mem_append_right _ hmem, hocc, ?_⟩, ?_⟩
        · intro tag htag i hi
          obtain htag | htag := List.mem_append.mp htag
          · exact hnoOpen tag htag i
          · exact hfirst tag htag i hi
        · rw [hnotOpen _ hmem]
          rfl
    | some opening =>
      obtain ⟨hopenMem, hopenOcc, hopenFirst⟩ := findFirst_some openTags_ne_nil hopen
      have hisOpen : ∀ tag ∈ openTags, openTags.contains tag = true := by decide
      have hopens : Clear false buffer opening.1 → ∃ i tag,
          TakesTag ⟨buffer, false⟩ i tag ∧ (chunk .text (buffer.take opening.1),
            (⟨buffer.drop (opening.1 + opening.2.length), true⟩ : ThinkTagParser))
          = (chunk (contentType false) (buffer.take i),
            ⟨buffer.drop (i + tag.length), openTags.contains tag⟩) := by
        intro hclear
        refine ⟨opening.1, opening.2, ⟨List.mem_append_left _ hopenMem, hopenOcc, hclear⟩, ?_⟩
        rw [hisOpen _ hopenMem]
        rfl
      left
      cases hclose : findFirst buffer closeTags with
      | none =>
        have hnoClose := findFirst_none closeTags_ne_nil hclose
        apply hopens
        intro tag htag i hi
        obtain htag | htag := List.mem_append.mp htag
        · exact hopenFirst tag htag i hi
        · exact hnoClose tag htag i
      | some found =>
        obtain ⟨hmem, hocc, hfirst⟩ := findFirst_some closeTags_ne_nil hclose
        by_cases hlt : found.1 < opening.1
        · have hnotOpen : ∀ tag ∈ closeTags, openTags.contains tag = false := by decide
          refine ⟨found.1, found.2, ⟨List.mem_append_right _ hmem, hocc, ?_⟩, ?_⟩
          · intro tag htag i hi
            obtain htag | htag := List.mem_append.mp htag
            · exact hopenFirst tag htag i (by omega)
            · exact hfirst tag htag i hi
          · rw [hnotOpen _ hmem]
            simp [Option.filter, hlt, contentType]
        · have hfilter : (some found).filter (fun close =>
              (some opening).all fun found => close.1 < found.1) = none := by
            simp [Option.filter, hlt]
          rw [hfilter]
          apply hopens
          intro tag htag i hi
          obtain htag | htag := List.mem_append.mp htag
          · exact hopenFirst tag htag i hi
          · exact hfirst tag htag i (by omega)

/-! ### The pieces of a text -/

theorem pieces_skip (inThinkTag : Bool) (n : Nat) (text : List Char) :
    pieces inThinkTag n text = pieces inThinkTag 0 (text.drop n) := by
  induction text generalizing n with
  | nil => cases n <;> simp [pieces]
  | cons c text ih =>
    cases n with
    | zero => rfl
    | succ n =>
      rw [pieces, ih]
      rfl

theorem pieces_tag {inThinkTag : Bool} {tag text : List Char}
    (htag : tag ∈ recognisedTags inThinkTag) (hpre : tag <+: text) :
    pieces inThinkTag 0 text
      = .tag tag :: pieces (openTags.contains tag) 0 (text.drop tag.length) := by
  have hne := recognisedTags_ne_nil htag
  have hpos := List.length_pos_iff.mpr hne
  cases text with
  | nil => exact absurd (List.prefix_nil.mp hpre) hne
  | cons c text =>
    rw [pieces, tagAt_of_prefix htag hpre]
    simp only
    rw [pieces_skip, ← List.drop_succ_cons (a := c), show tag.length - 1 + 1 = tag.length by omega]

theorem pieces_clear {inThinkTag : Bool} {text : List Char} {n : Nat} (hn : n ≤ text.length)
    (hclear : Clear inThinkTag text n) :
    pieces inThinkTag 0 text = (text.take n).map (.char (contentType inThinkTag))
      ++ pieces inThinkTag 0 (text.drop n) := by
  induction n generalizing text with
  | zero => simp
  | succ n ih =>
    cases text with
    | nil => simp at hn
    | cons c text =>
      have hnone : tagAt inThinkTag (c :: text) = none :=
        tagAt_eq_none.mpr fun tag htag => hclear tag htag 0 (by omega)
      rw [List.length_cons] at hn
      have hrest := @ih text (by omega) fun tag htag i hi =>
        hclear tag htag (i + 1) (by omega)
      rw [pieces, hnone, hrest]
      rfl

/-- The pieces are the text again. -/
theorem pieces_source (inThinkTag : Bool) (text : List Char) :
    (pieces inThinkTag 0 text).flatMap Piece.source = text := by
  induction hlen : text.length using Nat.strongRecOn generalizing inThinkTag text with
  | ind n ih =>
    subst hlen
    cases text with
    | nil => rfl
    | cons c text =>
      cases htag : tagAt inThinkTag (c :: text) with
      | none =>
        rw [pieces, htag]
        simp only [List.flatMap_cons, Piece.source]
        rw [ih text.length (by simp) inThinkTag text rfl]
        rfl
      | some tag =>
        obtain ⟨hmem, hpre⟩ := tagAt_eq_some htag
        have hpos := List.length_pos_iff.mpr (recognisedTags_ne_nil hmem)
        rw [pieces_tag hmem hpre, List.flatMap_cons, Piece.source]
        rw [ih _ (by simp only [List.length_drop, List.length_cons]; omega) _ _ rfl]
        obtain ⟨rest, hrest⟩ := hpre
        rw [← hrest, List.drop_left]

/-- What is still to be given for the buffer and for `more` after it. -/
def ThinkTagParser.shown (p : ThinkTagParser) (more : List Char) : List (ContentType × Char) :=
  (pieces p.inThinkTag 0 (p.buffer ++ more)).flatMap Piece.typed

/-- The buffer holds no tag, as after every `feed`. -/
def ThinkTagParser.Settled (p : ThinkTagParser) : Prop :=
  Clear p.inThinkTag p.buffer p.buffer.length

theorem chunk_typed (type : ContentType) (content : List Char) :
    (chunk type content).toList.flatMap ContentChunk.typed = content.map (type, ·) := by
  rw [chunk]
  split_ifs with hempty
  · simp [hempty]
  · simp [ContentChunk.typed]

theorem char_typed (type : ContentType) (content : List Char) :
    (content.map (Piece.char type)).flatMap Piece.typed = content.map (type, ·) := by
  induction content with
  | nil => rfl
  | cons c content ih =>
    rw [List.map_cons, List.flatMap_cons, ih]
    rfl

theorem ThinkTagParser.parse_shown (p : ThinkTagParser) (more : List Char) :
    p.shown more = p.parse.1.toList.flatMap ContentChunk.typed ++ p.parse.2.shown more := by
  obtain ⟨i, tag, ⟨htag, hocc, hclear⟩, hparse⟩ | ⟨i, ⟨_, hi, hclear⟩, hparse⟩ := p.parse_cases
  · have hne := recognisedTags_ne_nil htag
    have hlen := length_of_prefix_drop hne hocc
    have hmark : p.buffer[i]? = some '<' := by
      rw [← singleton_prefix_drop]
      refine List.IsPrefix.trans ?_ hocc
      rw [List.singleton_prefix_iff_head?_eq_some]
      exact (recognisedTags_shape htag).1
    have hpre : tag <+: (p.buffer ++ more).drop i := by
      rw [List.drop_append_of_le_length (by omega)]
      exact hocc.trans (List.prefix_append _ _)
    rw [shown, pieces_clear (n := i) (by rw [List.length_append]; omega)
      (clear_append more hclear hmark), pieces_tag htag hpre, List.flatMap_append, char_typed,
      List.flatMap_cons, Piece.typed, List.nil_append, List.drop_drop, hparse]
    simp only [chunk_typed, shown]
    rw [List.take_append_of_le_length (by omega), List.drop_append_of_le_length (by omega)]
  · rw [shown, pieces_clear (n := i) (by rw [List.length_append]; omega) (hclear more),
      List.flatMap_append, char_typed, hparse]
    simp only [chunk_typed, shown]
    rw [List.take_append_of_le_length hi, List.drop_append_of_le_length hi]

theorem chunk_eq_none {type : ContentType} {content : List Char} :
    chunk type content = none ↔ content = [] := by
  rw [chunk]
  split_ifs with hempty <;> simp [hempty]

theorem chunk_eq_some {type : ContentType} {content : List Char} {found : ContentChunk}
    (h : chunk type content = some found) : content ≠ [] ∧ found = ⟨type, content⟩ := by
  rw [chunk] at h
  split_ifs at h with hempty
  exact ⟨hempty, (Option.some.inj h).symm⟩

/-- A round with a fragment takes it from the buffer. -/
theorem ThinkTagParser.parse_some {p q : ThinkTagParser} {found : ContentChunk}
    (h : p.parse = (some found, q)) :
    found.content ≠ [] ∧ q.buffer.length < p.buffer.length := by
  have hshorter : ∀ {i} n, p.buffer.take i ≠ [] →
      (p.buffer.drop (i + n)).length < p.buffer.length := by
    intro i n htake
    have htake := List.length_pos_iff.mpr htake
    rw [List.length_take] at htake
    rw [List.length_drop]
    omega
  obtain ⟨i, tag, _, hparse⟩ | ⟨i, _, hparse⟩ := p.parse_cases
  · rw [hparse, Prod.mk.injEq] at h
    obtain ⟨hchunk, rfl⟩ := h
    obtain ⟨hne, rfl⟩ := chunk_eq_some hchunk
    exact ⟨hne, hshorter tag.length hne⟩
  · rw [hparse, Prod.mk.injEq] at h
    obtain ⟨hchunk, rfl⟩ := h
    obtain ⟨hne, rfl⟩ := chunk_eq_some hchunk
    exact ⟨hne, hshorter 0 hne⟩

/-- A round without a fragment takes a tag, or it is the last one. -/
theorem ThinkTagParser.parse_none {p q : ThinkTagParser} (h : p.parse = (none, q)) :
    q.buffer.length < p.buffer.length ∨ q = p ∧ p.Settled := by
  obtain ⟨i, tag, ⟨htag, hocc, _⟩, hparse⟩ | ⟨i, ⟨hclear, hi, _⟩, hparse⟩ := p.parse_cases
  · left
    rw [hparse, Prod.mk.injEq] at h
    obtain ⟨_, rfl⟩ := h
    have hne := recognisedTags_ne_nil htag
    have hlen := length_of_prefix_drop hne hocc
    have hpos := List.length_pos_iff.mpr hne
    simp only [List.length_drop]
    omega
  · right
    rw [hparse, Prod.mk.injEq] at h
    obtain ⟨hchunk, rfl⟩ := h
    have hempty := congrArg List.length (chunk_eq_none.mp hchunk)
    rw [List.length_take, List.length_nil] at hempty
    have hdrop : p.buffer.drop i = p.buffer := by
      obtain hzero | hnil : i = 0 ∨ p.buffer.length = 0 := by omega
      · rw [hzero, List.drop_zero]
      · rw [List.length_eq_zero_iff.mp hnil, List.drop_nil]
    rw [hdrop]
    exact ⟨rfl, hclear⟩

/-! ### The whole text -/

theorem settled_of_empty {p : ThinkTagParser} (hempty : p.buffer = []) : p.Settled := by
  intro tag _ i hi
  rw [hempty] at hi
  cases hi

theorem feedLoop_spec {fuel : Nat} {p : ThinkTagParser} (hfuel : p.buffer.length ≤ fuel) :
    (∀ more, p.shown more = (feedLoop fuel p).1.flatMap ContentChunk.typed
      ++ (feedLoop fuel p).2.shown more) ∧
    (∀ found ∈ (feedLoop fuel p).1, found.content ≠ []) ∧ (feedLoop fuel p).2.Settled := by
  induction fuel generalizing p with
  | zero =>
    have hempty := List.length_eq_zero_iff.mp (Nat.le_zero.mp hfuel)
    exact ⟨fun _ => rfl, by simp [feedLoop], settled_of_empty hempty⟩
  | succ fuel ih =>
    rw [feedLoop]
    by_cases hempty : p.buffer = []
    · rw [if_pos hempty]
      exact ⟨fun _ => rfl, by simp, settled_of_empty hempty⟩
    · rw [if_neg hempty]
      have hshown := p.parse_shown
      cases hround : p.parse with
      | mk result q =>
        rw [hround] at hshown
        cases result with
        | some found =>
          obtain ⟨hne, hlt⟩ := p.parse_some hround
          obtain ⟨hrest, hnonempty, hsettled⟩ := ih (p := q) (by omega)
          refine ⟨?_, by simpa [hne] using hnonempty, hsettled⟩
          intro more
          rw [hshown, hrest]
          simp
        | none =>
          have hnone := p.parse_none hround
          simp only
          split_ifs with hlen
          · obtain hlt | ⟨heq, hsettled⟩ := hnone
            · exact absurd hlen (Nat.ne_of_lt hlt)
            · subst heq
              exact ⟨fun _ => rfl, by simp, hsettled⟩
          · obtain hlt | ⟨heq, _⟩ := hnone
            · obtain ⟨hrest, hnonempty, hsettled⟩ := ih (p := q) (by omega)
              refine ⟨?_, hnonempty, hsettled⟩
              intro more
              rw [hshown, hrest]
              rfl
            · rw [heq] at hlen
              exact absurd rfl hlen

/-- More fuel changes nothing: the loop ends by itself. -/
theorem feedLoop_fuel {fuel : Nat} {p : ThinkTagParser} (hfuel : p.buffer.length ≤ fuel) :
    feedLoop (fuel + 1) p = feedLoop fuel p := by
  induction fuel generalizing p with
  | zero =>
    have hempty := List.length_eq_zero_iff.mp (Nat.le_zero.mp hfuel)
    simp [feedLoop, hempty]
  | succ fuel ih =>
    rw [feedLoop, feedLoop]
    by_cases hempty : p.buffer = []
    · rw [if_pos hempty, if_pos hempty]
    · rw [if_neg hempty, if_neg hempty]
      cases hround : p.parse with
      | mk result q =>
        cases result with
        | some found =>
          have hlt := (p.parse_some hround).2
          simp only
          rw [ih (by omega)]
        | none =>
          have hnone := p.parse_none hround
          simp only
          split_ifs with hlen
          · rfl
          · obtain hlt | ⟨heq, _⟩ := hnone
            · exact ih (by omega)
            · rw [heq] at hlen
              exact absurd rfl hlen

theorem ThinkTagParser.feed_shown (p : ThinkTagParser) (content more : List Char) :
    p.shown (content ++ more)
      = (p.feed content).1.flatMap ContentChunk.typed ++ (p.feed content).2.shown more := by
  have hloop := (feedLoop_spec (p := { p with buffer := p.buffer ++ content }) le_rfl).1 more
  rw [shown, ← List.append_assoc]
  exact hloop

theorem ThinkTagParser.feed_settled (p : ThinkTagParser) (content : List Char) :
    (p.feed content).2.Settled :=
  (feedLoop_spec le_rfl).2.2

theorem ThinkTagParser.flush_shown {p : ThinkTagParser} (hsettled : p.Settled) :
    p.flush.1.toList.flatMap ContentChunk.typed = p.shown [] := by
  rw [flush, chunk_typed, shown, List.append_nil, pieces_clear le_rfl hsettled,
    List.flatMap_append, char_typed, List.take_length, List.drop_length]
  simp [pieces]

/-- However a text is cut, the fragments are its characters with their types. -/
theorem ThinkTagParser.fragments_typed {p : ThinkTagParser} (hsettled : p.Settled)
    (chunks : List (List Char)) :
    (p.fragments chunks).flatMap ContentChunk.typed = p.shown chunks.flatten := by
  induction chunks generalizing p with
  | nil => exact flush_shown hsettled
  | cons content chunks ih =>
    rw [fragments, List.flatMap_append, ih (p.feed_settled content), List.flatten_cons,
      feed_shown]

theorem ThinkTagParser.fragments_nonempty (p : ThinkTagParser) (chunks : List (List Char)) :
    ∀ found ∈ p.fragments chunks, found.content ≠ [] := by
  induction chunks generalizing p with
  | nil =>
    intro found hfound
    rw [fragments, Option.mem_toList] at hfound
    obtain ⟨hne, rfl⟩ := chunk_eq_some hfound
    exact hne
  | cons content chunks ih =>
    intro found hfound
    rw [fragments, List.mem_append] at hfound
    obtain hfound | hfound := hfound
    · exact (feedLoop_spec le_rfl).2.1 found hfound
    · exact ih _ found hfound

theorem joined_joined (type : ContentType) (first second : List Char)
    (rest : List ContentChunk) :
    joined ⟨type, first⟩ (joined ⟨type, second⟩ rest) = joined ⟨type, first ++ second⟩ rest := by
  cases rest with
  | nil => simp [joined]
  | cons next rest =>
    simp only [joined]
    split_ifs with htype
    · simp
    · simp

theorem joined_chars (type : ContentType) (c : Char) (content : List Char)
    (rest : List ContentChunk) :
    ((c :: content).map fun c => (⟨type, [c]⟩ : ContentChunk)).foldr joined rest
      = joined ⟨type, c :: content⟩ rest := by
  induction content generalizing c with
  | nil => rfl
  | cons d content ih =>
    rw [List.map_cons, List.foldr_cons, ih d, joined_joined]
    rfl

/-- Merging sees only the characters and their types. -/
theorem merged_eq {fragments : List ContentChunk}
    (hne : ∀ found ∈ fragments, found.content ≠ []) :
    merged fragments
      = merged ((fragments.flatMap ContentChunk.typed).map fun c => ⟨c.1, [c.2]⟩) := by
  induction fragments with
  | nil => rfl
  | cons first fragments ih =>
    have hrest := ih fun found hfound => hne found (List.mem_cons_of_mem _ hfound)
    obtain ⟨type, content⟩ := first
    obtain ⟨c, content, rfl⟩ := List.exists_cons_of_ne_nil (hne _ List.mem_cons_self)
    have hchars := joined_chars type c content (merged fragments)
    rw [merged, List.foldr_cons, ← merged, ← hchars, hrest, List.flatMap_cons, List.map_append,
      merged, merged, List.foldr_append, ContentChunk.typed, List.map_map]
    rfl

theorem contents_typed (fragments : List ContentChunk) :
    fragments.flatMap ContentChunk.content
      = (fragments.flatMap ContentChunk.typed).map Prod.snd := by
  induction fragments with
  | nil => rfl
  | cons first fragments ih =>
    rw [List.flatMap_cons, List.flatMap_cons, List.map_append, ih, ContentChunk.typed, List.map_map]
    simp

theorem pieces_contents (found : List Piece) :
    (found.flatMap Piece.typed).map Prod.snd = found.flatMap Piece.content := by
  induction found with
  | nil => rfl
  | cons first found ih =>
    rw [List.flatMap_cons, List.map_append, ih, List.flatMap_cons]
    cases first <;> rfl

/-- The fragments of a text do not depend on how it is cut, and they are the text without the tags
that one pass over it recognises. -/
theorem think_tags_chunked (chunks : List (List Char)) :
    merged (ThinkTagParser.new.fragments chunks)
        = merged (ThinkTagParser.new.fragments [chunks.flatten]) ∧
      (ThinkTagParser.new.fragments chunks).flatMap ContentChunk.content
        = (pieces false 0 chunks.flatten).flatMap Piece.content ∧
      (pieces false 0 chunks.flatten).flatMap Piece.source = chunks.flatten := by
  have hsettled : ThinkTagParser.new.Settled := settled_of_empty rfl
  have htyped := ThinkTagParser.fragments_typed hsettled chunks
  have hwhole := ThinkTagParser.fragments_typed hsettled [chunks.flatten]
  rw [List.flatten_singleton] at hwhole
  refine ⟨?_, ?_, pieces_source _ _⟩
  · rw [merged_eq (ThinkTagParser.fragments_nonempty _ _), htyped, ← hwhole,
      ← merged_eq (ThinkTagParser.fragments_nonempty _ _)]
  · rw [contents_typed, htyped]
    exact pieces_contents _

end Switchboard.Core.ThinkTags
