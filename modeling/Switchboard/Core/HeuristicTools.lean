import Switchboard.Library.Dict
import Switchboard.Library.Json
import Switchboard.Library.Text
import Switchboard.Library.TextSearch

/-!
# Tool calls in text

The streaming parser for tool calls that a model writes as text. The patterns are given by what
they match at one place.
-/

namespace Switchboard.Core.HeuristicTools

open Switchboard.Text Switchboard.TextSearch

inductive ParserState
  | text
  | matchingFunction
  | parsingParameters
  deriving DecidableEq, Repr

def ParserState.rank : ParserState → Nat
  | .matchingFunction => 0
  | .text => 1
  | .parsingParameters => 2

/-- A detected call. The ids that `uuid4` gives are numbered in their order. -/
structure ToolUse where
  id : Nat
  name : String
  input : Dict String Json

structure HeuristicToolParser where
  state : ParserState
  buffer : List Char
  currentToolId : Nat
  currentFunctionName : String
  currentParameters : Dict String Json
  idsDrawn : Nat

def HeuristicToolParser.new : HeuristicToolParser := ⟨.text, [], 0, "", .empty, 0⟩

def controlTokenStart : List Char := ['<', '|']

def controlTokenEnd : List Char := ['|', '>']

def bullet : Char := '●'

def functionTag : List Char := ['<', 'f', 'u', 'n', 'c', 't', 'i', 'o', 'n', '=']

def parameterTag : List Char := ['<', 'p', 'a', 'r', 'a', 'm', 'e', 't', 'e', 'r', '=']

def parameterEnd : List Char := ['<', '/', 'p', 'a', 'r', 'a', 'm', 'e', 't', 'e', 'r', '>']

/-- The characters `[^|>]`. -/
def inControlToken (c : Char) : Bool := c ≠ '|' && c ≠ '>'

/-- The characters `[^>]`. -/
def inName (c : Char) : Bool := c ≠ '>'

/-- `_CONTROL_TOKEN_RE` at the beginning of a text: the length of its match. -/
def controlTokenAt (text : List Char) : Option Nat :=
  if controlTokenStart.isPrefixOf text then
    let name := (text.drop 2).takeWhile inControlToken
    if 1 ≤ name.length && name.length ≤ 80 &&
        controlTokenEnd.isPrefixOf (text.drop (2 + name.length)) then
      some (name.length + 4)
    else none
  else none

/-- A tag with a name and the closing bracket: the name and the text behind the bracket. -/
def namedTag (tag text : List Char) : Option (List Char × List Char) :=
  if tag.isPrefixOf text then
    let body := text.drop tag.length
    match body.takeWhile inName, body.dropWhile inName with
    | [], _ => none
    | _, [] => none
    | name, _ :: rest => some (name, rest)
  else none

/-- `_FUNC_START_PATTERN` at the beginning of a text. -/
def functionStartAt : List Char → Option (List Char × List Char)
  | [] => none
  | c :: text => if c = bullet then namedTag functionTag (text.dropWhile isSpace) else none

structure ParameterMatch where
  key : List Char
  value : List Char
  /-- Whether the end tag is part of the match. -/
  ended : Bool
  rest : List Char
  deriving DecidableEq, Repr

/-- `_PARAM_PATTERN` at the beginning of a text. Without an end tag the match goes on to `$`, which
is before a last line break. -/
def parameterAt (text : List Char) : Option ParameterMatch :=
  match namedTag parameterTag text with
  | none => none
  | some (key, body) =>
    match find parameterEnd body with
    | some i => some ⟨key, body.take i, true, body.drop (i + parameterEnd.length)⟩
    | none =>
      let value := if body.getLast? = some '\n' then body.dropLast else body
      let matched := parameterTag ++ key ++ ['>'] ++ value
      some ⟨key, value, (find parameterEnd matched).isSome, body.drop value.length⟩

/-- What the patterns for the web tools take from Python: `\w` and `json.loads`. -/
structure WebText where
  isWord : Char → Bool
  jsonLoads : List Char → Option Json

namespace WebText

/-- One letter of a pattern in lower case, as `re.IGNORECASE` compares it. -/
def sameLetter (letter c : Char) : Bool := c.toLower = letter || (letter = 's' && c = 'ſ')

/-- A word of a pattern at the beginning of a text: what it matches there and what comes after. -/
def wordAt (word text : List Char) : Option (List Char × List Char) :=
  if word.length ≤ text.length && (List.zipWith sameLetter word text).all id then
    some (text.take word.length, text.drop word.length)
  else none

def webFetchWord : List Char := ['w', 'e', 'b', 'f', 'e', 't', 'c', 'h']

def webSearchWord : List Char := ['w', 'e', 'b', 's', 'e', 'a', 'r', 'c', 'h']

/-- `\b`, between a character, if there is one, and the text behind it. -/
def boundary (w : WebText) (before : Option Char) (text : List Char) : Bool :=
  before.any w.isWord != text.head?.any w.isWord

/-- The name of a tool with what the pattern needs behind it: the name, the JSON text and the
text behind it. -/
def toolAt (w : WebText) (text : List Char) : Option (List Char × List Char × List Char) :=
  match (wordAt webFetchWord text).or (wordAt webSearchWord text) with
  | none => none
  | some (tool, rest) =>
    let object := rest.dropWhile (· ≠ '{')
    match object.dropWhile (· ≠ '}') with
    | [] => none
    | close :: after =>
      if w.boundary tool.getLast? rest then
        some (tool, object.takeWhile (· ≠ '}') ++ [close], after)
      else none

/-- `_WEB_TOOL_JSON_PATTERN` at one place. -/
def callAt (w : WebText) (before : Option Char) (text : List Char) :
    Option (List Char × List Char × List Char) :=
  if w.boundary before text then
    let afterUse := match wordAt ['u', 's', 'e'] text with
      | some (_, rest) => if rest.head?.any isSpace then w.toolAt (rest.dropWhile isSpace) else none
      | none => none
    afterUse.or (w.toolAt text)
  else none

/-- `finditer`: the tools and JSON texts of the matches. The number says how many characters are
still part of the last match. -/
def calls (w : WebText) : Option Char → Nat → List Char → List (List Char × List Char)
  | _, _, [] => []
  | _, skip + 1, c :: text => w.calls (some c) skip text
  | before, 0, c :: text =>
    match w.callAt before (c :: text) with
    | some (tool, json, rest) =>
      (tool, json) :: w.calls (some c) (text.length - rest.length) text
    | none => w.calls (some c) 0 text

/-- The input of a call that is detected. -/
def toolInput (w : WebText) (tool json : List Char) : Option (Dict String Json) :=
  match w.jsonLoads json with
  | some (.obj fields) =>
    let input := Dict.ofList fields
    if String.ofList tool = "WebFetch" && !input.contains "url" then none
    else if String.ofList tool = "WebSearch" && !input.contains "query" then none
    else some input
  | _ => none

/-- The names and inputs of the calls that are detected in a buffer. -/
def detected (w : WebText) (buffer : List Char) : List (String × Dict String Json) :=
  (w.calls none 0 buffer).filterMap fun call =>
    (w.toolInput call.1 call.2).map (String.ofList call.1, ·)

end WebText

/-- `_extract_web_tool_json_calls`. -/
def HeuristicToolParser.extractWebToolJsonCalls (w : WebText) (p : HeuristicToolParser) :
    HeuristicToolParser × List ToolUse :=
  match w.detected p.buffer with
  | [] => (p, [])
  | found =>
    let tools := found.mapIdx fun i call => ⟨p.idsDrawn + i, call.1, call.2⟩
    ({ p with buffer := [], idsDrawn := p.idsDrawn + found.length }, tools)

def stripControlTokens (text : List Char) : List Char := remove controlTokenAt 0 text

/-- The prefix that is safe, and what stays in the buffer. -/
def splitIncompleteControlTokenTail (buffer : List Char) : List Char × List Char :=
  match rfind controlTokenStart buffer with
  | none => ([], buffer)
  | some start =>
    if (find controlTokenEnd (buffer.drop start)).isSome then ([], buffer)
    else (buffer.take start, buffer.drop start)

/-- What a round of `feed` gives: text, tools, and whether the loop goes on. -/
structure Round where
  visible : List Char
  tools : List ToolUse
  goesOn : Bool
  next : HeuristicToolParser

def HeuristicToolParser.readText (p : HeuristicToolParser) : Round :=
  match find [bullet] p.buffer with
  | some idx =>
    ⟨p.buffer.take idx, [], true,
      { p with buffer := p.buffer.drop idx, state := .matchingFunction }⟩
  | none =>
    let (safePrefix, tail) := splitIncompleteControlTokenTail p.buffer
    if safePrefix ≠ [] then ⟨safePrefix, [], false, { p with buffer := tail }⟩
    else ⟨p.buffer, [], false, { p with buffer := [] }⟩

def HeuristicToolParser.matchFunction (p : HeuristicToolParser) : Round :=
  match search functionStartAt p.buffer, p.buffer with
  | some (_, name, rest), _ =>
    ⟨[], [], true,
      { p with
        currentFunctionName := strip isSpace (String.ofList name), currentToolId := p.idsDrawn,
        idsDrawn := p.idsDrawn + 1, currentParameters := .empty, buffer := rest,
        state := .parsingParameters }⟩
  | none, [] => ⟨[], [], false, p⟩
  | none, c :: text =>
    if 100 < p.buffer.length then ⟨[c], [], true, { p with buffer := text, state := .text }⟩
    else ⟨[], [], false, p⟩

/-- `self._current_parameters[key] = val`. -/
def HeuristicToolParser.setParameter (p : HeuristicToolParser) (key value : List Char) :
    HeuristicToolParser :=
  { p with
    currentParameters := p.currentParameters.set (strip isSpace (String.ofList key))
      (.str (strip isSpace (String.ofList value))) }

/-- The loop over parameters. Each round takes a parameter from the buffer. -/
def readParameters : Nat → HeuristicToolParser → List Char × HeuristicToolParser
  | 0, p => ([], p)
  | fuel + 1, p =>
    match search parameterAt p.buffer with
    | some (before, found) =>
      if found.ended then
        let (visible, q) :=
          readParameters fuel { p.setParameter found.key found.value with buffer := found.rest }
        (before ++ visible, q)
      else ([], p)
    | none => ([], p)

def HeuristicToolParser.currentTool (p : HeuristicToolParser) : ToolUse :=
  ⟨p.currentToolId, p.currentFunctionName, p.currentParameters⟩

/-- `buffer.strip().startswith("<")`. -/
def startsTag (buffer : List Char) : Bool :=
  (strip isSpace (String.ofList buffer)).toList.head? = some '<'

def HeuristicToolParser.parseParameters (p : HeuristicToolParser) : Round :=
  let (visible, q) := readParameters p.buffer.length p
  match find [bullet] q.buffer with
  | some idx =>
    ⟨visible ++ q.buffer.take idx, [q.currentTool], true,
      { q with buffer := q.buffer.drop idx, state := .text }⟩
  | none =>
    if q.buffer ≠ [] && !startsTag q.buffer && (find parameterTag q.buffer).isNone then
      ⟨visible ++ q.buffer, [q.currentTool], true, { q with buffer := [], state := .text }⟩
    else ⟨visible, [], false, q⟩

/-- One state of the loop of `feed`. A round of the loop goes through up to three of them, and it
breaks when one of them does not go on. -/
def HeuristicToolParser.round (p : HeuristicToolParser) : Round :=
  match p.state with
  | .text => p.readText
  | .matchingFunction => p.matchFunction
  | .parsingParameters => p.parseParameters

def feedLoop : Nat → HeuristicToolParser → List Char × List ToolUse × HeuristicToolParser
  | 0, p => ([], [], p)
  | fuel + 1, p =>
    let found := p.round
    if found.goesOn then
      let (visible, tools, q) := feedLoop fuel found.next
      (found.visible ++ visible, found.tools ++ tools, q)
    else (found.visible, found.tools, found.next)

/-- Rounds enough: every third round takes something from the buffer. -/
def loopFuel (buffer : List Char) : Nat := 3 * buffer.length + 3

/-- What is left to do in a loop, which every round but the last makes less. -/
def HeuristicToolParser.weight (p : HeuristicToolParser) : Nat :=
  3 * p.buffer.length + p.state.rank

def HeuristicToolParser.feed (w : WebText) (p : HeuristicToolParser) (text : List Char) :
    List Char × List ToolUse × HeuristicToolParser :=
  let buffer := stripControlTokens (p.buffer ++ text)
  let (p, detected) := { p with buffer := buffer }.extractWebToolJsonCalls w
  let (visible, tools, q) := feedLoop (loopFuel p.buffer) p
  (visible, detected ++ tools, q)

/-- The parameter that `flush` still reads, which may lack its end. -/
def partialParameter (buffer : List Char) : Option (List Char × List Char) :=
  (search (namedTag parameterTag) buffer).map Prod.snd

def HeuristicToolParser.flush (p : HeuristicToolParser) : List ToolUse × HeuristicToolParser :=
  let p := { p with buffer := stripControlTokens p.buffer }
  if p.state = .parsingParameters then
    let q := match partialParameter p.buffer with
      | some (key, value) => p.setParameter key value
      | none => p
    ([q.currentTool], { q with state := .text, buffer := [] })
  else ([], p)

/-- Feeding chunks and flushing: the visible text and the detected calls. -/
def HeuristicToolParser.run (w : WebText) :
    HeuristicToolParser → List (List Char) → List Char × List ToolUse
  | p, [] => ([], p.flush.1)
  | p, text :: chunks =>
    let (visible, tools, q) := p.feed w text
    let (moreVisible, moreTools) := q.run w chunks
    (visible ++ moreVisible, tools ++ moreTools)

/-! ### What the patterns match -/

theorem inControlToken_eq_true {c : Char} : inControlToken c = true ↔ c ≠ '|' ∧ c ≠ '>' := by
  simp [inControlToken]

theorem inName_eq_false {c : Char} : inName c = false ↔ c = '>' := by
  simp [inName]

theorem namedTag_eq_some {tag text name rest : List Char} :
    namedTag tag text = some (name, rest) ↔
      name ≠ [] ∧ '>' ∉ name ∧ text = tag ++ name ++ '>' :: rest := by
  constructor
  · intro h
    rw [namedTag] at h
    split_ifs at h with hpre
    obtain ⟨body, rfl⟩ := List.isPrefixOf_iff_prefix.mp hpre
    rw [List.drop_left] at h
    have hbody := List.takeWhile_append_dropWhile (p := inName) (l := body)
    cases hname : body.takeWhile inName with
    | nil => simp [hname] at h
    | cons c cs =>
      cases hrest : body.dropWhile inName with
      | nil => simp [hname, hrest] at h
      | cons d ds =>
        simp only [hname, hrest, Option.some.injEq, Prod.mk.injEq] at h
        obtain ⟨rfl, rfl⟩ := h
        have hd := List.head_dropWhile_not inName (l := body) (by simp [hrest])
        simp only [hrest, List.head_cons] at hd
        rw [inName_eq_false] at hd
        subst hd
        rw [hname, hrest] at hbody
        refine ⟨by simp, ?_, by rw [← hbody, List.append_assoc]⟩
        intro hmem
        rw [← hname] at hmem
        cases List.mem_takeWhile_imp hmem
  · rintro ⟨hne, hname, rfl⟩
    have hall : ∀ c ∈ name, inName c = true := by
      intro c hc
      simp only [inName, ne_eq, decide_eq_true_eq]
      rintro rfl
      exact hname hc
    have htake : (name ++ '>' :: rest).takeWhile inName = name := by
      rw [List.takeWhile_append_of_pos hall, List.takeWhile_cons_of_neg (by decide),
        List.append_nil]
    have hdrop : (name ++ '>' :: rest).dropWhile inName = '>' :: rest := by
      rw [List.dropWhile_append_of_pos hall, List.dropWhile_cons_of_neg (by decide)]
    rw [namedTag, List.append_assoc,
      if_pos (List.isPrefixOf_iff_prefix.mpr (List.prefix_append _ _)), List.drop_left]
    obtain ⟨c, cs, rfl⟩ := List.exists_cons_of_ne_nil hne
    simp only [htake, hdrop]

theorem functionStartAt_eq_some {text name rest : List Char} :
    functionStartAt text = some (name, rest) ↔
      ∃ spaces, (∀ c ∈ spaces, isSpace c = true) ∧ name ≠ [] ∧ '>' ∉ name ∧
        text = bullet :: (spaces ++ functionTag ++ name ++ '>' :: rest) := by
  constructor
  · intro h
    cases text with
    | nil => cases h
    | cons c text =>
      rw [functionStartAt] at h
      split_ifs at h with hbullet
      obtain ⟨hne, hname, htext⟩ := namedTag_eq_some.mp h
      refine ⟨text.takeWhile isSpace, fun c hc => List.mem_takeWhile_imp hc, hne, hname, ?_⟩
      rw [hbullet, List.append_assoc, List.append_assoc, ← List.append_assoc functionTag, ← htext,
        List.takeWhile_append_dropWhile]
  · rintro ⟨spaces, hspaces, hne, hname, rfl⟩
    rw [functionStartAt, if_pos rfl, List.append_assoc, List.append_assoc,
      List.dropWhile_append_of_pos hspaces]
    have hstop : (functionTag ++ (name ++ '>' :: rest)).dropWhile isSpace
        = functionTag ++ name ++ '>' :: rest := by
      rw [List.append_assoc]
      exact List.dropWhile_cons_of_neg (by decide)
    rw [hstop]
    exact namedTag_eq_some.mpr ⟨hne, hname, rfl⟩

theorem controlTokenAt_eq_some {text : List Char} {n : Nat} :
    controlTokenAt text = some n ↔
      ∃ name rest, (∀ c ∈ name, c ≠ '|' ∧ c ≠ '>') ∧ 1 ≤ name.length ∧ name.length ≤ 80 ∧
        n = name.length + 4 ∧
        text = controlTokenStart ++ name ++ controlTokenEnd ++ rest := by
  constructor
  · intro h
    rw [controlTokenAt] at h
    split_ifs at h with hpre
    obtain ⟨body, rfl⟩ := List.isPrefixOf_iff_prefix.mp hpre
    simp only at h
    split_ifs at h with hlen
    have hbody := List.takeWhile_append_dropWhile (p := inControlToken) (l := body)
    have htwo : (controlTokenStart ++ body).drop 2 = body := rfl
    rw [htwo] at h hlen
    simp only [Bool.and_eq_true, decide_eq_true_eq] at hlen
    obtain ⟨⟨hone, heighty⟩, hend⟩ := hlen
    obtain ⟨rest, hrest⟩ := List.isPrefixOf_iff_prefix.mp hend
    refine ⟨body.takeWhile inControlToken, rest, ?_, hone, heighty,
      (Option.some.inj h).symm, ?_⟩
    · intro c hc
      exact inControlToken_eq_true.mp (List.mem_takeWhile_imp hc)
    · rw [← List.drop_drop, htwo] at hrest
      have hdrop : body.drop (body.takeWhile inControlToken).length
          = body.dropWhile inControlToken := by
        nth_rewrite 2 [← hbody]
        rw [List.drop_left]
      rw [List.append_assoc, List.append_assoc, hrest, hdrop, hbody]
  · rintro ⟨name, rest, hname, hone, heighty, rfl, rfl⟩
    have hall : ∀ c ∈ name, inControlToken c = true := fun c hc =>
      inControlToken_eq_true.mpr (hname c hc)
    have htake : (name ++ (controlTokenEnd ++ rest)).takeWhile inControlToken = name := by
      rw [List.takeWhile_append_of_pos hall]
      simp [controlTokenEnd, inControlToken]
    have htwo : (controlTokenStart ++ name ++ controlTokenEnd ++ rest).drop 2
        = name ++ (controlTokenEnd ++ rest) := by simp [controlTokenStart]
    have hend : (controlTokenStart ++ name ++ controlTokenEnd ++ rest).drop (2 + name.length)
        = controlTokenEnd ++ rest := by
      rw [← List.drop_drop, htwo, List.drop_left]
    rw [controlTokenAt, if_pos (by simp [List.isPrefixOf_iff_prefix]), htwo, htake]
    simp only [hend]
    simp [hone, heighty]

theorem functionStartAt_append {text : List Char} (more : List Char)
    (h : functionStartAt (text ++ more) = none) : functionStartAt text = none := by
  cases hfound : functionStartAt text with
  | none => rfl
  | some found =>
    obtain ⟨spaces, hspaces, hne, hname, rfl⟩ := functionStartAt_eq_some.mp hfound
    have hmore : functionStartAt (bullet :: (spaces ++ functionTag ++ found.1 ++ '>' :: found.2)
        ++ more) = some (found.1, found.2 ++ more) :=
      functionStartAt_eq_some.mpr ⟨spaces, hspaces, hne, hname, by simp⟩
    rw [h] at hmore
    cases hmore

theorem controlTokenAt_append {text : List Char} (more : List Char)
    (h : controlTokenAt (text ++ more) = none) : controlTokenAt text = none := by
  cases hfound : controlTokenAt text with
  | none => rfl
  | some n =>
    obtain ⟨name, rest, hname, hone, heighty, hn, rfl⟩ := controlTokenAt_eq_some.mp hfound
    have hmore : controlTokenAt (controlTokenStart ++ name ++ controlTokenEnd ++ rest ++ more)
        = some n :=
      controlTokenAt_eq_some.mpr ⟨name, rest ++ more, hname, hone, heighty, hn, by simp⟩
    rw [h] at hmore
    cases hmore

end Switchboard.Core.HeuristicTools
