import Mathlib.Data.List.Count
import Mathlib.Data.List.DropRight
import ParseOutcome.Proofs.Lines.Rendering

/-!
# From one location to a later one

A location need not be counted from the beginning of the source.  From the location of any
earlier position, it is enough to pass over the stretch between the two: the line grows by the
newlines in the stretch, and the offset by its symbols, unless there is a newline among them.
Then only what stands after the last newline counts.

The last symbols before a remainder are such a stretch.  What is shown of them has a line break
for each line by which the location of the remainder is further than that of the first of them.
Tokens are shown by their numbers, so there the line breaks are the numbers of newlines.

A location is a fold over the symbols before it, and a stretch goes on with the fold where an
earlier one has stopped (`Location.ofPosition_of_le`).  That no newline is lost or added in the
text is read off the law by which lines are shown one by one.
-/

namespace ParseOutcome

variable {α : Type} [DecidableEq α] [Symbol α]

/-! ## Passing over a stretch -/

/-- The symbols after the last newline of a stretch, or all of them if it has none. -/
def afterNewline (stretch : List α) : List α :=
  stretch.rtakeWhile fun symbol => decide (symbol ≠ Symbol.newline)

theorem afterNewline_concat_newline (stretch : List α) :
    afterNewline (stretch ++ [Symbol.newline]) = [] :=
  List.rtakeWhile_concat_neg _ _ _ (by simp)

theorem afterNewline_concat {symbol : α} (hsymbol : symbol ≠ Symbol.newline) (stretch : List α) :
    afterNewline (stretch ++ [symbol]) = afterNewline stretch ++ [symbol] :=
  List.rtakeWhile_concat_pos _ _ _ (by simpa using hsymbol)

namespace Location

theorem foldl_past (location : Location) (stretch : List α) :
    stretch.foldl past location =
      ⟨location.line + stretch.count Symbol.newline,
        if Symbol.newline ∈ stretch then (afterNewline stretch).length
        else location.offset + stretch.length⟩ := by
  -- from the end, where the newline stands that counts
  induction stretch using List.reverseRecOn with
  | nil => simp
  | append_singleton stretch symbol ih =>
      rw [List.foldl_append, ih, List.foldl_cons, List.foldl_nil, past, List.count_append]
      by_cases hsymbol : symbol = Symbol.newline
      · subst hsymbol
        simp [afterNewline_concat_newline, Nat.add_assoc]
      · have hnewline : ¬ Symbol.newline = symbol := fun heq => hsymbol heq.symm
        rw [afterNewline_concat hsymbol]
        simp only [hsymbol, hnewline, if_false, List.mem_append, List.mem_singleton, or_false,
          List.count_singleton, beq_iff_eq, Nat.add_zero, List.length_append, List.length_singleton]
        split <;> simp [Nat.add_assoc]

/-- **A location in terms of an earlier one.** -/
theorem ofPosition_of_le (source : Source α) {start stop : Nat} (horder : start ≤ stop) :
    ofPosition source.symbols stop =
      ⟨(ofPosition source.symbols start).line + (source.slice start stop).count Symbol.newline,
        if Symbol.newline ∈ source.slice start stop then
          (afterNewline (source.slice start stop)).length
        else (ofPosition source.symbols start).offset + (source.slice start stop).length⟩ := by
  have hsplit : source.symbols.take start ++ source.slice start stop =
      source.symbols.take stop := by
    have htake := List.take_append_drop start (source.symbols.take stop)
    rwa [List.take_take, Nat.min_eq_left horder] at htake
  rw [ofPosition, ← hsplit, List.foldl_append, foldl_past]
  rfl

end Location

/-! ## What is shown for newlines -/

/-- The line breaks in a text. -/
def lineBreaks (text : String) : Nat :=
  text.toList.count '\n'

/-- How often the number of the newline stands in a text of numbers parted by spaces. -/
def newlineNumbers (text : String) : Nat :=
  (text.toList.splitOn ' ').count (Token.digits Symbol.newline)

/-- Whether a count on texts tells how many newlines are among the symbols that are shown. -/
def CountsNewlines (α : Type) [DecidableEq α] [Symbol α] (shown : String → Nat) : Prop :=
  ∀ symbols : List α, shown (Symbol.render symbols) = symbols.count Symbol.newline

/-- A kind of symbols that is shown line by line shows a line break for every newline. -/
theorem countsNewlines_of_textLines_render
    (hrender : ∀ symbols : List α,
      Context.textLines (Symbol.render symbols) = (Context.lines symbols).map Symbol.render) :
    CountsNewlines α lineBreaks := by
  intro symbols
  -- there is one line more than there are newlines, in the symbols as in their text
  have hlength := congrArg List.length (hrender symbols)
  rw [Context.textLines, List.length_map, List.length_map, Context.length_lines,
    Context.length_lines] at hlength
  exact Nat.succ.inj hlength

theorem countsNewlines_bytes : CountsNewlines UInt8 lineBreaks :=
  countsNewlines_of_textLines_render Context.textLines_render_bytes

theorem countsNewlines_text : CountsNewlines Char lineBreaks :=
  countsNewlines_of_textLines_render Context.textLines_render_text

theorem countsNewlines_tokens : CountsNewlines UInt32 newlineNumbers := by
  intro tokens
  cases tokens with
  | nil => decide
  | cons token rest =>
      rw [newlineNumbers, Token.splitOn_render (List.cons_ne_nil _ _),
        List.count_map_of_injective _ _ Token.digits_injective]

/-! ## The last symbols before a remainder -/

namespace Outcome

variable {T : Type}

/-- The location of the first of the symbols that are shown before the remainder. -/
def windowLocation (outcome : Outcome α T) : Location :=
  Location.ofPosition outcome.remainder.source.symbols (outcome.remainder.position - window)

theorem line_windowLocation_add {shown : String → Nat} (hcounts : CountsNewlines α shown)
    (outcome : Outcome α T) :
    outcome.windowLocation.line + shown outcome.recentlyConsumed = outcome.location.line := by
  have hlater := Location.ofPosition_of_le outcome.remainder.source
    (Nat.sub_le outcome.remainder.position window)
  have hline := congrArg Location.line hlater
  rw [recentlyConsumed, hcounts]
  exact hline.symm

end Outcome

/-- **Locations can be counted on from earlier ones.**  Between two positions, in order and
within the source, the line grows by the newlines of the stretch from the one to the other.
The offset grows by the length of the stretch if it has no newline, and is otherwise the number
of symbols after its last one.  So what is shown before a remainder has as many line breaks as
there are lines between the location of the first symbol that is shown and that of the
remainder, where for tokens the numbers of newlines are taken for line breaks. -/
theorem location_by_increment (source : Source α) (T : Type) :
    (∀ start stop, start ≤ stop → stop ≤ source.length →
        (Location.ofPosition source.symbols stop).line =
            (Location.ofPosition source.symbols start).line +
              (source.slice start stop).count Symbol.newline ∧
          (Location.ofPosition source.symbols stop).offset =
            if Symbol.newline ∈ source.slice start stop then
              ((source.slice start stop).rtakeWhile fun symbol =>
                decide (symbol ≠ Symbol.newline)).length
            else (Location.ofPosition source.symbols start).offset + (stop - start)) ∧
      (∀ outcome : Outcome UInt8 T,
        outcome.windowLocation.line + lineBreaks outcome.recentlyConsumed =
          outcome.location.line) ∧
      (∀ outcome : Outcome Char T,
        outcome.windowLocation.line + lineBreaks outcome.recentlyConsumed =
          outcome.location.line) ∧
      ∀ outcome : Outcome UInt32 T,
        outcome.windowLocation.line + newlineNumbers outcome.recentlyConsumed =
          outcome.location.line := by
  refine ⟨?_, Outcome.line_windowLocation_add countsNewlines_bytes,
    Outcome.line_windowLocation_add countsNewlines_text,
    Outcome.line_windowLocation_add countsNewlines_tokens⟩
  intro start stop horder hstop
  have hlength : (source.slice start stop).length = stop - start := by
    rw [Source.length_slice, Nat.min_eq_left hstop]
  rw [Location.ofPosition_of_le source horder, hlength]
  exact ⟨rfl, rfl⟩

/-- The bytes of a letter, a newline and two more letters. -/
def twoLines : Source UInt8 :=
  Source.ofBuffer 0 [97, 10, 98, 99]

/-- From the first line to the end of the second the offset is counted afresh, and within the
second line it is counted on. -/
theorem location_by_increment_in_twoLines :
    (1 ≤ 4 ∧ 4 ≤ twoLines.length ∧
        (Location.ofPosition twoLines.symbols 4).line =
          (Location.ofPosition twoLines.symbols 1).line + 1 ∧
        (Location.ofPosition twoLines.symbols 4).offset = 2) ∧
      3 ≤ 4 ∧
        (Location.ofPosition twoLines.symbols 4).offset =
          (Location.ofPosition twoLines.symbols 3).offset + 1 := by
  obtain ⟨hstretch, -⟩ := location_by_increment twoLines Unit
  obtain ⟨hline, hafresh⟩ := hstretch 1 4 (by decide) (by decide)
  obtain ⟨-, hon⟩ := hstretch 3 4 (by decide) (by decide)
  exact ⟨⟨by decide, by decide, hline, hafresh⟩, by decide, hon⟩

end ParseOutcome
