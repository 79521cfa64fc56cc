import Mathlib.Data.List.DropRight
import Switchboard.Core.HeuristicTools

/-!
# Prose through the tool parser

What the parser for tool calls gives back of a text that has none.
-/

namespace Switchboard.Core.HeuristicTools

open Switchboard.Text Switchboard.TextSearch

/-- A text without a complete call, a control token or a call of a web tool in any part of it. -/
structure Prose (w : WebText) (text : List Char) : Prop where
  noCall : ∀ i, functionStartAt (text.drop i) = none
  noControlToken : ∀ i, controlTokenAt (text.drop i) = none
  noWebCall : ∀ part, part <:+: text → w.detected part = []

/-- The text behind the last bullet, or all of it. -/
def afterLastBullet (text : List Char) : List Char := text.rtakeWhile (· ≠ bullet)

variable {w : WebText}

theorem Prose.part {text part : List Char} (hprose : Prose w text) (hpart : part <:+: text) :
    Prose w part where
  noCall := drop_eq_none_of_infix (fun _ more => functionStartAt_append more) hpart hprose.noCall
  noControlToken :=
    drop_eq_none_of_infix (fun _ more => controlTokenAt_append more) hpart hprose.noControlToken
  noWebCall part' hpart' := hprose.noWebCall part' (hpart'.trans hpart)

theorem Prose.feed_eq {p : HeuristicToolParser} {text : List Char}
    (hprose : Prose w (p.buffer ++ text)) :
    p.feed w text
      = feedLoop (loopFuel (p.buffer ++ text)) { p with buffer := p.buffer ++ text } := by
  rw [HeuristicToolParser.feed, stripControlTokens, remove_of_none hprose.noControlToken,
    HeuristicToolParser.extractWebToolJsonCalls]
  simp only [hprose.noWebCall _ List.infix_rfl]
  rfl

theorem afterLastBullet_append (before text : List Char) :
    afterLastBullet (before ++ bullet :: text) = afterLastBullet text := by
  rw [afterLastBullet, afterLastBullet, List.rtakeWhile, List.rtakeWhile, List.reverse_append,
    List.reverse_cons, List.append_assoc, List.takeWhile_append]
  split_ifs with hall
  · rw [List.singleton_append, List.takeWhile_cons_of_neg (by simp), List.append_nil,
      List.IsPrefix.eq_of_length (List.takeWhile_prefix _) hall]
  · rfl

theorem afterLastBullet_of_notMem {text : List Char} (hbullet : bullet ∉ text) :
    afterLastBullet text = text := by
  rw [afterLastBullet, List.rtakeWhile_eq_self_iff]
  intro c hc
  simp only [ne_eq, decide_eq_true_eq]
  rintro rfl
  exact hbullet hc

theorem suffix_afterLastBullet {tail text : List Char} (htail : tail <:+ text)
    (hbullet : bullet ∉ tail) : tail <:+ afterLastBullet text := by
  obtain ⟨before, rfl⟩ := htail
  have hall : ∀ c ∈ tail.reverse, decide (c ≠ bullet) = true := by
    intro c hc
    simp only [ne_eq, decide_eq_true_eq]
    rintro rfl
    exact hbullet (List.mem_reverse.mp hc)
  rw [afterLastBullet, List.rtakeWhile, List.reverse_append, List.takeWhile_append_of_pos hall,
    List.reverse_append, List.reverse_reverse]
  exact List.suffix_append _ _

/-- The incomplete control token that is held back. -/
theorem split_whole (buffer : List Char) :
    (splitIncompleteControlTokenTail buffer).1 ++ (splitIncompleteControlTokenTail buffer).2
      = buffer := by
  rw [splitIncompleteControlTokenTail]
  split
  · rfl
  · split_ifs
    · rfl
    · exact List.take_append_drop _ _

/-- When there is a safe prefix. -/
theorem split_eq {buffer : List Char} :
    (splitIncompleteControlTokenTail buffer).1 ≠ [] ↔ ∃ start,
      rfind controlTokenStart buffer = some start ∧ 0 < start ∧
        find controlTokenEnd (buffer.drop start) = none := by
  rw [splitIncompleteControlTokenTail]
  cases hstart : rfind controlTokenStart buffer with
  | none => simp
  | some start =>
    have hlen := lt_of_prefix_drop (by decide) (rfind_eq_some (by decide) hstart).1
    have hne : buffer ≠ [] := by
      rintro rfl
      simp at hlen
    cases hend : find controlTokenEnd (buffer.drop start) with
    | some stop => simp [hend]
    | none => simp [hend, hne, Nat.pos_iff_ne_zero]

/-- What is held back at the end of a text is held back at the end of a longer one. -/
theorem split_suffix {tail text : List Char} (htail : tail <:+ text)
    (hheld : (splitIncompleteControlTokenTail tail).1 ≠ []) :
    (splitIncompleteControlTokenTail text).1 ≠ [] := by
  obtain ⟨before, rfl⟩ := htail
  obtain ⟨start, hstart, hpos, hend⟩ := split_eq.mp hheld
  apply split_eq.mpr
  refine ⟨before.length + start, rfind_append before hstart, by omega, ?_⟩
  rw [← List.drop_drop, List.drop_left]
  exact hend

/-- Every bullet among the first `n` characters is more than a hundred characters before the
end. -/
def Far (text : List Char) (n : Nat) : Prop :=
  ∀ i < n, text[i]? = some bullet → 100 < text.length - i

/-- After a text without calls of which `visible` was given. -/
structure Reads (text visible : List Char) (q : HeuristicToolParser) : Prop where
  whole : visible ++ q.buffer = text
  far : Far text visible.length
  state :
    (q.state = .matchingFunction ∧ q.buffer.head? = some bullet ∧ q.buffer.length ≤ 100) ∨
    (q.state = .text ∧ bullet ∉ q.buffer ∧ (q.buffer = [] ∨ ∃ tail, tail <:+ text ∧
      bullet ∉ tail ∧ (splitIncompleteControlTokenTail tail).1 ≠ []))

theorem Reads.append {text visible : List Char} {q : HeuristicToolParser} (before : List Char)
    (hreads : Reads text visible q) (hfar : Far (before ++ text) before.length) :
    Reads (before ++ text) (before ++ visible) q where
  whole := by rw [List.append_assoc, hreads.whole]
  far := by
    intro i hi hget
    by_cases hbefore : i < before.length
    · exact hfar i hbefore hget
    · rw [List.length_append] at hi
      rw [List.getElem?_append_right (by omega)] at hget
      have hlater := hreads.far (i - before.length) (by omega) hget
      rw [List.length_append]
      omega
  state := by
    obtain hmatching | ⟨htext, hno, hempty | ⟨tail, htail, hbullet, hheld⟩⟩ := hreads.state
    · exact .inl hmatching
    · exact .inr ⟨htext, hno, .inl hempty⟩
    · exact .inr ⟨htext, hno, .inr ⟨tail, htail.trans (List.suffix_append _ _), hbullet, hheld⟩⟩

theorem far_of_notMem {before text : List Char} (hbullet : bullet ∉ before) :
    Far (before ++ text) before.length := by
  intro i hi hget
  rw [List.getElem?_append_left hi] at hget
  exact absurd (List.mem_of_getElem? hget) hbullet

theorem find_bullet_none {buffer : List Char} : find [bullet] buffer = none ↔ bullet ∉ buffer := by
  rw [find_eq_none (by simp)]
  constructor
  · intro h hmem
    obtain ⟨i, hi, hget⟩ := List.mem_iff_getElem.mp hmem
    exact h i (singleton_prefix_drop.mpr (List.getElem?_eq_some_iff.mpr ⟨hi, hget⟩))
  · intro h i hpre
    exact h (List.mem_of_getElem? (singleton_prefix_drop.mp hpre))

/-- The first bullet, and no bullet before it. -/
theorem find_bullet_some {buffer : List Char} {idx : Nat} (h : find [bullet] buffer = some idx) :
    bullet ∉ buffer.take idx ∧ ∃ text, buffer.drop idx = bullet :: text := by
  obtain ⟨⟨text, htext⟩, hfirst⟩ := find_eq_some (by simp) h
  refine ⟨?_, text, htext.symm⟩
  intro hmem
  obtain ⟨i, hi, hget⟩ := List.mem_iff_getElem.mp hmem
  rw [List.length_take] at hi
  rw [List.getElem_take] at hget
  exact hfirst i (by omega)
    (singleton_prefix_drop.mpr (List.getElem?_eq_some_iff.mpr ⟨by omega, hget⟩))

/-! ### Rounds -/

variable {p : HeuristicToolParser} {fuel : Nat}

theorem feedLoop_next {found : Round} (hround : p.round = found) (hgoes : found.goesOn = true) :
    feedLoop (fuel + 1) p = (found.visible ++ (feedLoop fuel found.next).1,
      found.tools ++ (feedLoop fuel found.next).2.1, (feedLoop fuel found.next).2.2) := by
  rw [feedLoop, hround]
  simp only
  rw [if_pos hgoes]

theorem feedLoop_last {found : Round} (hround : p.round = found) (hstops : found.goesOn = false) :
    feedLoop (fuel + 1) p = (found.visible, found.tools, found.next) := by
  rw [feedLoop, hround]
  simp [hstops]

theorem round_text (hstate : p.state = .text) : p.round = p.readText := by
  rw [HeuristicToolParser.round, hstate]

theorem round_matching (hstate : p.state = .matchingFunction) : p.round = p.matchFunction := by
  rw [HeuristicToolParser.round, hstate]

theorem round_bullet {idx : Nat} (hstate : p.state = .text)
    (hfind : find [bullet] p.buffer = some idx) :
    p.round = ⟨p.buffer.take idx, [], true,
      { p with buffer := p.buffer.drop idx, state := .matchingFunction }⟩ := by
  rw [round_text hstate]
  simp only [HeuristicToolParser.readText, hfind]

theorem round_held (hstate : p.state = .text) (hbullet : bullet ∉ p.buffer)
    (hheld : (splitIncompleteControlTokenTail p.buffer).1 ≠ []) :
    p.round = ⟨(splitIncompleteControlTokenTail p.buffer).1, [], false,
      { p with buffer := (splitIncompleteControlTokenTail p.buffer).2 }⟩ := by
  rw [round_text hstate]
  simp only [HeuristicToolParser.readText, find_bullet_none.mpr hbullet]
  rw [if_pos hheld]

theorem round_given (hstate : p.state = .text) (hbullet : bullet ∉ p.buffer)
    (hheld : (splitIncompleteControlTokenTail p.buffer).1 = []) :
    p.round = ⟨p.buffer, [], false, { p with buffer := [] }⟩ := by
  rw [round_text hstate]
  simp only [HeuristicToolParser.readText, find_bullet_none.mpr hbullet]
  rw [if_neg (not_not.mpr hheld)]

theorem round_popped {c : Char} {text : List Char} (hstate : p.state = .matchingFunction)
    (hnone : search functionStartAt p.buffer = none) (hbuffer : p.buffer = c :: text)
    (hlong : 100 < p.buffer.length) :
    p.round = ⟨[c], [], true, { p with buffer := text, state := .text }⟩ := by
  rw [round_matching hstate]
  simp only [HeuristicToolParser.matchFunction, hnone]
  rw [hbuffer] at hlong ⊢
  simp only
  rw [if_pos hlong]

theorem round_waits (hstate : p.state = .matchingFunction)
    (hnone : search functionStartAt p.buffer = none) (hshort : p.buffer.length ≤ 100) :
    p.round = ⟨[], [], false, p⟩ := by
  rw [round_matching hstate]
  simp only [HeuristicToolParser.matchFunction, hnone]
  cases hbuffer : p.buffer with
  | nil => rfl
  | cons c text =>
    rw [hbuffer] at hshort
    simp only
    rw [if_neg (by omega)]

/-! ### What a loop leaves -/

theorem Prose.feedLoop_reads (hfuel : p.weight < fuel) (hprose : Prose w p.buffer)
    (hstate : p.state = .text ∨ p.state = .matchingFunction ∧ p.buffer.head? = some bullet) :
    Reads p.buffer (feedLoop fuel p).1 (feedLoop fuel p).2.2 := by
  induction fuel generalizing p with
  | zero => omega
  | succ fuel ih =>
    obtain htext | ⟨hmatching, hhead⟩ := hstate
    · rw [HeuristicToolParser.weight, htext, ParserState.rank] at hfuel
      cases hfind : find [bullet] p.buffer with
      | some idx =>
        obtain ⟨hbefore, text, hdrop⟩ := find_bullet_some hfind
        have hlen := (List.drop_suffix idx p.buffer).length_le
        have hrest := ih (p := { p with buffer := p.buffer.drop idx, state := .matchingFunction })
          (by simp only [HeuristicToolParser.weight, ParserState.rank]; omega)
          (hprose.part (List.drop_suffix _ _).isInfix) (.inr ⟨rfl, by simp [hdrop]⟩)
        have happ := hrest.append (p.buffer.take idx) (far_of_notMem hbefore)
        rw [List.take_append_drop] at happ
        rw [feedLoop_next (round_bullet htext hfind) rfl]
        exact happ
      | none =>
        have hbullet := find_bullet_none.mp hfind
        have hfar : ∀ visible more : List Char, visible ++ more = p.buffer →
            Far p.buffer visible.length := by
          intro visible more hsplit
          rw [← hsplit] at hbullet ⊢
          exact far_of_notMem fun hmem => hbullet (List.mem_append_left _ hmem)
        by_cases hheld : (splitIncompleteControlTokenTail p.buffer).1 = []
        · rw [feedLoop_last (round_given htext hbullet hheld) rfl]
          exact ⟨List.append_nil _, hfar _ [] (List.append_nil _), .inr ⟨htext, by simp, .inl rfl⟩⟩
        · rw [feedLoop_last (round_held htext hbullet hheld) rfl]
          have hwhole := split_whole p.buffer
          refine ⟨hwhole, hfar _ _ hwhole, .inr ⟨htext, ?_, .inr ⟨p.buffer, List.suffix_rfl,
            hbullet, hheld⟩⟩⟩
          intro hmem
          rw [← hwhole] at hbullet
          exact hbullet (List.mem_append_right _ hmem)
    · rw [HeuristicToolParser.weight, hmatching, ParserState.rank] at hfuel
      have hnone := search_eq_none.mpr hprose.noCall
      obtain ⟨text, hbuffer⟩ : ∃ text, p.buffer = bullet :: text := List.head?_eq_some_iff.mp hhead
      by_cases hlong : 100 < p.buffer.length
      · have hlen := congrArg List.length hbuffer
        rw [List.length_cons] at hlen
        have hrest := ih (p := { p with buffer := text, state := .text })
          (by simp only [HeuristicToolParser.weight, ParserState.rank]; omega)
          (hprose.part (by rw [hbuffer]; exact (List.suffix_cons _ _).isInfix)) (.inl rfl)
        have happ := hrest.append [bullet] (by
          intro i hi _
          rw [List.length_singleton] at hi
          rw [List.singleton_append, ← hbuffer]
          omega)
        rw [List.singleton_append, ← hbuffer] at happ
        rw [feedLoop_next (round_popped hmatching hnone hbuffer hlong) rfl]
        exact happ
      · rw [feedLoop_last (round_waits hmatching hnone (by omega)) rfl]
        exact ⟨rfl, by intro i hi; simp at hi, .inl ⟨hmatching, hhead, by simpa using hlong⟩⟩

/-- Of a text whose end is held back something stays in the buffer. -/
theorem Prose.feedLoop_held (hfuel : p.weight < fuel) (hprose : Prose w p.buffer)
    (hstate : p.state = .text ∨ p.state = .matchingFunction ∧ p.buffer.head? = some bullet)
    (hheld : (splitIncompleteControlTokenTail (afterLastBullet p.buffer)).1 ≠ []) :
    (feedLoop fuel p).2.2.buffer ≠ [] := by
  induction fuel generalizing p with
  | zero => omega
  | succ fuel ih =>
    obtain htext | ⟨hmatching, hhead⟩ := hstate
    · rw [HeuristicToolParser.weight, htext, ParserState.rank] at hfuel
      cases hfind : find [bullet] p.buffer with
      | some idx =>
        obtain ⟨hbefore, text, hdrop⟩ := find_bullet_some hfind
        have hlen := (List.drop_suffix idx p.buffer).length_le
        have hsame : afterLastBullet (p.buffer.drop idx) = afterLastBullet p.buffer := by
          conv_rhs => rw [← List.take_append_drop idx p.buffer, hdrop, afterLastBullet_append]
          rw [hdrop, ← List.nil_append (bullet :: text), afterLastBullet_append]
        rw [feedLoop_next (round_bullet htext hfind) rfl]
        apply ih
        · simp only [HeuristicToolParser.weight, ParserState.rank]
          omega
        · exact hprose.part (List.drop_suffix _ _).isInfix
        · exact .inr ⟨rfl, by simp [hdrop]⟩
        · simpa only [hsame] using hheld
      | none =>
        have hbullet := find_bullet_none.mp hfind
        rw [afterLastBullet_of_notMem hbullet] at hheld
        obtain ⟨start, hstart, _, hend⟩ := split_eq.mp hheld
        have hlen := lt_of_prefix_drop (by decide) (rfind_eq_some (by decide) hstart).1
        rw [feedLoop_last (round_held htext hbullet hheld) rfl]
        simpa [splitIncompleteControlTokenTail, hstart, hend] using hlen
    · rw [HeuristicToolParser.weight, hmatching, ParserState.rank] at hfuel
      have hnone := search_eq_none.mpr hprose.noCall
      obtain ⟨text, hbuffer⟩ : ∃ text, p.buffer = bullet :: text := List.head?_eq_some_iff.mp hhead
      by_cases hlong : 100 < p.buffer.length
      · have hlen := congrArg List.length hbuffer
        rw [List.length_cons] at hlen
        rw [feedLoop_next (round_popped hmatching hnone hbuffer hlong) rfl]
        apply ih
        · simp only [HeuristicToolParser.weight, ParserState.rank]
          omega
        · exact hprose.part (by rw [hbuffer]; exact (List.suffix_cons _ _).isInfix)
        · exact .inl rfl
        · rw [hbuffer, ← List.nil_append (bullet :: text), afterLastBullet_append] at hheld
          exact hheld
      · rw [feedLoop_last (round_waits hmatching hnone (by omega)) rfl]
        simp [hbuffer]

/-! ### Whole texts -/

theorem Reads.feed {text visible : List Char} {q : HeuristicToolParser} (content : List Char)
    (hreads : Reads text visible q) (hprose : Prose w (text ++ content)) :
    Reads (text ++ content) (visible ++ (q.feed w content).1) (q.feed w content).2.2 := by
  have hbuffer : text ++ content = visible ++ (q.buffer ++ content) := by
    rw [← hreads.whole, List.append_assoc]
  have hpart : Prose w (q.buffer ++ content) := by
    apply hprose.part
    rw [hbuffer]
    exact (List.suffix_append _ _).isInfix
  rw [hpart.feed_eq, hbuffer]
  have hweight : ({ q with buffer := q.buffer ++ content } : HeuristicToolParser).weight
      < loopFuel (q.buffer ++ content) := by
    have hrank : q.state.rank ≤ 2 := by cases q.state <;> simp [ParserState.rank]
    simp only [HeuristicToolParser.weight, loopFuel]
    omega
  apply Reads.append _ (hpart.feedLoop_reads hweight ?_)
  · intro i hi hget
    rw [List.getElem?_append_left hi] at hget
    have hlen := congrArg List.length hreads.whole
    have hlater := hreads.far i hi (by rw [← hreads.whole, List.getElem?_append_left hi, hget])
    rw [List.length_append] at hlen ⊢
    rw [List.length_append]
    omega
  · obtain ⟨hmatching, hhead, _⟩ | ⟨htext, _⟩ := hreads.state
    · exact .inr ⟨hmatching, by simp [List.head?_append, hhead]⟩
    · exact .inl htext

theorem reads_new : Reads [] [] HeuristicToolParser.new :=
  ⟨rfl, fun i hi => (nomatch hi), .inr ⟨rfl, by simp [HeuristicToolParser.new], .inl rfl⟩⟩

/-- Feeding the chunks keeps what was given before together with the buffer equal to the text. -/
theorem Reads.run {text visible : List Char} {q : HeuristicToolParser} (chunks : List (List Char))
    (hreads : Reads text visible q) (hprose : Prose w (text ++ chunks.flatten)) :
    ∃ r, Reads (text ++ chunks.flatten) (visible ++ (q.run w chunks).1) r := by
  induction chunks generalizing text visible q with
  | nil => exact ⟨q, by simpa [HeuristicToolParser.run] using hreads⟩
  | cons content chunks ih =>
    rw [List.flatten_cons, ← List.append_assoc] at hprose ⊢
    have hfed := hreads.feed content (hprose.part (List.prefix_append _ _).isInfix)
    obtain ⟨r, hr⟩ := ih hfed hprose
    refine ⟨r, ?_⟩
    rw [HeuristicToolParser.run]
    simpa only [List.append_assoc] using hr

theorem Far.not_mem {text : List Char} {n : Nat} (hfar : Far text text.length) (hn : n ≤ 100) :
    bullet ∉ text.drop (text.length - n) := by
  intro hmem
  obtain ⟨i, hi, hget⟩ := List.mem_iff_getElem.mp hmem
  rw [List.length_drop] at hi
  rw [List.getElem_drop] at hget
  have hlater := hfar _ (by omega) (List.getElem?_eq_some_iff.mpr ⟨by omega, hget⟩)
  omega

/-- A decoder that refuses every text, which is right for texts without braces. -/
def refusingWeb : WebText := ⟨Char.isAlphanum, fun _ => none⟩

theorem bullet_prose : Prose refusingWeb [bullet] where
  noCall i := by
    cases i with
    | zero => decide
    | succ i => rw [List.drop_of_length_le (by simp)]; rfl
  noControlToken i := by
    cases i with
    | zero => decide
    | succ i => rw [List.drop_of_length_le (by simp)]; rfl
  noWebCall part _ := by
    rw [WebText.detected, List.filterMap_eq_nil_iff]
    intro call _
    rfl

end Switchboard.Core.HeuristicTools
