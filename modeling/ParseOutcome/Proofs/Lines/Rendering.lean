import ParseOutcome.Outcome.Report
import ParseOutcome.Proofs.Lines.Rows
import ParseOutcome.Proofs.Text.Reader
import ParseOutcome.Proofs.Text.Tokens

/-!
# Showing a source line by line

A source may be split into lines first, and each line shown by itself; or the whole source
may be shown, and the text split into lines.  For bytes and for characters it comes to the
same, so the row of a line shows the line of the text with the same number.  Tokens are shown
on one line whatever they are, so for them there is no such law; but no row of any kind has a
newline in it, and the rows of a report can be told apart again.

For bytes, the law is an induction over the bytes in which the reader may have begun a
sequence (`lines_decodeFrom`).  A newline closes the sequence in the text as well as in the
line; any other byte shows no newline, whatever has begun.
-/

namespace ParseOutcome.Context

variable {α : Type} [DecidableEq α] [Symbol α]

/-! ## Splitting -/

theorem lines_of_newline_notMem {symbols : List α} (hsymbols : Symbol.newline ∉ symbols) :
    lines symbols = [symbols] :=
  List.splitOn_eq_singleton hsymbols

theorem lines_append_newline_cons (first second : List α) :
    lines (first ++ Symbol.newline :: second) = lines first ++ lines second := by
  obtain ⟨before, left, hfirst⟩ := exists_lines_eq_concat first
  rw [lines_append hfirst (lines_newline_cons second), hfirst, List.append_nil,
    List.append_cons]

/-- The lines of a text. -/
def textLines (text : String) : List String :=
  (lines text.toList).map String.ofList

theorem textLines_append_newline (first second : String) :
    textLines (first ++ "\n" ++ second) = textLines first ++ textLines second := by
  have hsplit := lines_append_newline_cons first.toList second.toList
  rw [textLines, String.toList_append, String.toList_append, List.append_assoc]
  rw [textLines, textLines, ← List.map_append, ← hsplit]
  rfl

/-- Texts of one line each can be told apart again when they are joined. -/
theorem textLines_intercalate {entries : List String} (hentries : entries ≠ [])
    (hsingle : ∀ entry ∈ entries, '\n' ∉ entry.toList) :
    textLines ("\n".intercalate entries) = entries := by
  have hlines : lines (['\n'].intercalate (entries.map String.toList)) =
      entries.map String.toList := by
    refine List.splitOn_intercalate _ ?_ (by simpa using hentries)
    intro line hline
    obtain ⟨entry, hentry, rfl⟩ := List.mem_map.mp hline
    exact hsingle entry hentry
  have hjoined : ("\n".intercalate entries).toList =
      ['\n'].intercalate (entries.map String.toList) := String.toList_intercalate
  rw [textLines, hjoined, hlines, List.map_map]
  simp

/-! ## Lines of bytes -/

/-- The lines of what the reader shows: the first goes on with what had begun before the
bytes, and the others are shown by themselves. -/
theorem lines_decodeFrom {bytes : List UInt8} {state : Option Utf8.Pending}
    (hstate : ∀ pending ∈ state, pending.IsProper) {line : List UInt8}
    {after : List (List UInt8)} (hlines : lines bytes = line :: after) :
    lines (Utf8.decodeFrom state bytes) =
      Utf8.decodeFrom state line :: after.map Utf8.decode := by
  induction bytes generalizing state line after with
  | nil =>
      obtain ⟨rfl, rfl⟩ : [] = line ∧ [] = after := by simpa [lines] using hlines
      -- what had begun is shown as a replacement, which is no newline
      refine lines_of_newline_notMem ?_
      cases state <;> simp [Utf8.decodeFrom, Utf8.flush, Utf8.replacement, Symbol.newline]
  | cons byte rest ih =>
      obtain ⟨first, others, hrest⟩ := exists_lines_eq_cons rest
      by_cases hbyte : byte = 10
      · -- a newline closes what had begun, in the text as in its first line
        subst hbyte
        have hnewline : lines ((10 : UInt8) :: rest) = [] :: first :: others := by
          rw [← hrest]
          exact lines_newline_cons rest
        obtain ⟨rfl, rfl⟩ := List.cons.inj (hlines.symm.trans hnewline)
        have hflush : Symbol.newline ∉ Utf8.flush state := by
          cases state <;> simp [Utf8.flush, Utf8.replacement, Symbol.newline]
        have hdecode : lines (Utf8.decode rest) = Utf8.decode first :: others.map Utf8.decode :=
          ih (by simp) hrest
        calc lines (Utf8.decodeFrom state (10 :: rest))
            = lines (Utf8.flush state ++ Symbol.newline :: Utf8.decode rest) := by
              rw [Utf8.decodeFrom_newline_cons hstate]
              rfl
          _ = Utf8.flush state :: lines (Utf8.decode rest) := by
              rw [lines_append_newline_cons, lines_of_newline_notMem hflush]
              rfl
          _ = Utf8.decodeFrom state [] :: (first :: others).map Utf8.decode := by
              rw [hdecode]
              rfl
      · -- any other byte is shown without a newline, so the first line goes on
        obtain ⟨rfl, rfl⟩ := List.cons.inj (hlines.symm.trans (lines_cons hbyte hrest))
        have hshown : lines (Utf8.feed state byte).1 = [] ++ [(Utf8.feed state byte).1] :=
          lines_of_newline_notMem (Utf8.newline_notMem_fst_feed hstate hbyte)
        have hfollowing : ∀ pending ∈ (Utf8.feed state byte).2, pending.IsProper :=
          fun _ hopen => Utf8.isProper_feed hstate hopen
        exact lines_append hshown (ih hfollowing hrest)

theorem textLines_render_bytes (bytes : List UInt8) :
    textLines (Symbol.render bytes) = (lines bytes).map Symbol.render := by
  obtain ⟨line, after, hlines⟩ := exists_lines_eq_cons bytes
  have hdecode : lines (Utf8.decode bytes) = (lines bytes).map Utf8.decode := by
    rw [hlines]
    exact lines_decodeFrom (by simp) hlines
  calc textLines (Symbol.render bytes)
      = (lines (Utf8.decode bytes)).map String.ofList := by
        show (lines (String.ofList (Utf8.decode bytes)).toList).map String.ofList = _
        rw [String.toList_ofList]
    _ = (lines bytes).map Symbol.render := by
        rw [hdecode, List.map_map]
        rfl

theorem textLines_render_text (text : List Char) :
    textLines (Symbol.render text) = (lines text).map Symbol.render := by
  show (lines (String.ofList text).toList).map String.ofList = (lines text).map Symbol.render
  rw [String.toList_ofList]
  rfl

/-! ## Rows of one line each -/

/-- Whether a line of symbols is shown without a newline. -/
def ShowsNoNewline (α : Type) [Symbol α] : Prop :=
  ∀ line : List α, Symbol.newline ∉ line → '\n' ∉ (Symbol.render line).toList

/-- A kind of symbols that is shown line by line shows a line on one line. -/
theorem showsNoNewline_of_textLines_render
    (hrender : ∀ symbols : List α,
      textLines (Symbol.render symbols) = (lines symbols).map Symbol.render) :
    ShowsNoNewline α := by
  intro line hline
  have hsingle : (lines (Symbol.render line).toList).map String.ofList = [Symbol.render line] := by
    have htext := hrender line
    rwa [lines_of_newline_notMem hline] at htext
  obtain ⟨shown, hshown, heq⟩ := List.map_eq_singleton_iff.mp hsingle
  have hmem : shown ∈ lines (Symbol.render line).toList := hshown ▸ List.mem_singleton_self _
  rw [← heq, String.toList_ofList]
  exact newline_notMem_of_mem_lines hmem

theorem showsNoNewline_tokens : ShowsNoNewline UInt32 := by
  intro line _ hmem
  rcases Token.isDigit_or_eq_of_mem_render hmem with hdigit | hspace
  · exact absurd hdigit (by decide)
  · exact absurd hspace (by decide)

theorem newline_notMem_gutter (number target : Nat) : '\n' ∉ (gutter number target).toList := by
  have hnumber : '\n' ∉ Nat.toDigits 10 number := by
    intro hmem
    exact absurd (Nat.isDigit_of_mem_toDigits (by omega) (Nat.le_refl 10) hmem) (by decide)
  rw [gutter, String.toList_append, String.toList_append]
  split <;> simp [hnumber]

theorem newline_notMem_marker (location : Location) : '\n' ∉ (marker location).toList := by
  simp [marker]

theorem mem_nearby_lines {symbols : List α} {target : Nat} {entry : List α × Nat}
    (hentry : entry ∈ nearby target symbols) : entry.1 ∈ lines symbols := by
  obtain ⟨-, hline, -⟩ := mem_nearby.mp hentry
  exact List.mem_of_getElem? hline

theorem newline_notMem_of_mem_rows (hshown : ShowsNoNewline α) {symbols : List α}
    {position : Nat} {entry : String} (hentry : entry ∈ rows symbols position) :
    '\n' ∉ entry.toList := by
  obtain ⟨numbered, hnumbered, hentry⟩ := List.mem_flatMap.mp hentry
  have hline := newline_notMem_of_mem_lines (mem_nearby_lines hnumbered)
  rcases List.mem_cons.mp hentry with rfl | hmark
  · rw [row, String.toList_append, List.mem_append, not_or]
    exact ⟨newline_notMem_gutter _ _, hshown _ hline⟩
  · split at hmark
    next =>
      rw [List.mem_singleton.mp hmark]
      exact newline_notMem_marker _
    next => exact absurd hmark List.not_mem_nil

theorem rows_ne_nil (symbols : List α) (position : Nat) : rows symbols position ≠ [] := by
  have haddresses := Location.addresses_ofPosition symbols position
  rw [rows, rowsAt_eq_layout haddresses.line_pos haddresses.line_le, layout]
  simp

/-! ## The laws -/

/-- The rows of the lines around a position, without the mark, where the text of a line is
taken from the text of the whole source. -/
def rowsOfText (symbols : List α) (position : Nat) : List String :=
  let target := (Location.ofPosition symbols position).line
  (List.range' (firstShown target) (lastShown target symbols + 1 - firstShown target)).map
    fun number =>
      gutter number target ++ ((textLines (Symbol.render symbols))[number - 1]?.getD "")

/-- Whether showing a source line by line agrees with showing the whole of it. -/
structure RendersByLine (α : Type) [DecidableEq α] [Symbol α] : Prop where
  textLines_render : ∀ symbols : List α,
    textLines (Symbol.render symbols) = (lines symbols).map Symbol.render
  rows_eq : ∀ (symbols : List α) (position : Nat),
    (rows symbols position).filter (fun entry => !isMark entry) = rowsOfText symbols position

/-- Whether the rows around a position can be read back, from the rows joined to a text and
from a report. -/
structure RowsReadBack (α : Type) [DecidableEq α] [Symbol α] : Prop where
  newline_notMem : ∀ (symbols : List α) (position : Nat),
    ∀ entry ∈ rows symbols position, '\n' ∉ entry.toList
  textLines_rows : ∀ (symbols : List α) (position : Nat),
    textLines ("\n".intercalate (rows symbols position)) = rows symbols position
  textLines_report : ∀ {T : Type} [ToString T] (outcome : Outcome α T),
    textLines outcome.report =
      textLines (outcome.display ++ "\n\nat " ++ outcome.location.display ++ ":") ++
        rows outcome.remainder.source.symbols outcome.remainder.position

theorem isMark_row (target : Nat) (symbols : List α) (number : Nat) :
    isMark (row target (lineAt symbols number) number) = false := by
  by_cases htarget : number = target
  · have hrow : row target (lineAt symbols number) number = arrowRow symbols number := by
      rw [row, gutter, if_pos htarget, arrowRow, arrow]
    rw [hrow, isMark_arrowRow]
  · have hrow : row target (lineAt symbols number) number = plainRow symbols number := by
      rw [row, gutter, if_neg htarget, plainRow]
    rw [hrow, isMark_plainRow]

/-- Without the mark, there is a row for each line that is shown. -/
theorem filter_not_isMark_rows (symbols : List α) (position : Nat) :
    (rows symbols position).filter (fun entry => !isMark entry) =
      (nearby (Location.ofPosition symbols position).line symbols).map fun entry =>
        row (Location.ofPosition symbols position).line entry.1 entry.2 := by
  rw [rows, rowsAt, nearby_eq, List.flatMap_map, List.map_map, List.filter_flatMap,
    List.map_eq_flatMap]
  refine List.flatMap_congr fun number _ => ?_
  rw [List.filter_cons_of_pos (by simp [isMark_row])]
  split <;> simp [isMark_marker]

theorem rendersByLine (hrender : ∀ symbols : List α,
    textLines (Symbol.render symbols) = (lines symbols).map Symbol.render)
    (hempty : Symbol.render ([] : List α) = "") : RendersByLine α where
  textLines_render := hrender
  rows_eq := by
    intro symbols position
    rw [filter_not_isMark_rows, nearby_eq, List.map_map, rowsOfText]
    refine List.map_congr_left fun number _ => ?_
    have hline : Symbol.render (lineAt symbols number) =
        (textLines (Symbol.render symbols))[number - 1]?.getD "" := by
      rw [hrender, List.getElem?_map, lineAt]
      cases (lines symbols)[number - 1]? with
      | none => exact hempty
      | some line => rfl
    rw [← hline]
    rfl

theorem rowsReadBack (hshown : ShowsNoNewline α) : RowsReadBack α := by
  have hsingle : ∀ (symbols : List α) (position : Nat),
      ∀ entry ∈ rows symbols position, '\n' ∉ entry.toList := by
    intro symbols position entry hentry
    exact newline_notMem_of_mem_rows hshown hentry
  have hrows : ∀ (symbols : List α) (position : Nat),
      textLines ("\n".intercalate (rows symbols position)) = rows symbols position := by
    intro symbols position
    exact textLines_intercalate (rows_ne_nil symbols position) (hsingle symbols position)
  refine ⟨hsingle, hrows, ?_⟩
  intro T _ outcome
  -- a report is a line with the location and then the rows, behind the short form
  have hreport : outcome.report =
      outcome.display ++ "\n\nat " ++ outcome.location.display ++ ":" ++ "\n" ++
        "\n".intercalate outcome.context := by
    simp [Outcome.report, String.append_assoc]
  rw [hreport, textLines_append_newline]
  exact congrArg _ (hrows _ _)

/-- **Shown line by line**: for bytes, whether they are UTF-8 or not, and for characters,
the lines of the text are the texts of the lines, and a row shows the line of the text with
its number.  For tokens as well, no row has a newline, and rows can be read back from the
text in which they are joined. -/
theorem rendered_line_by_line :
    RendersByLine UInt8 ∧ RendersByLine Char ∧
      RowsReadBack UInt8 ∧ RowsReadBack Char ∧ RowsReadBack UInt32 := by
  have hbytes : ShowsNoNewline UInt8 := showsNoNewline_of_textLines_render textLines_render_bytes
  have htext : ShowsNoNewline Char := showsNoNewline_of_textLines_render textLines_render_text
  refine ⟨?_, ?_, rowsReadBack hbytes, rowsReadBack htext, rowsReadBack showsNoNewline_tokens⟩
  · exact rendersByLine textLines_render_bytes rfl
  · exact rendersByLine textLines_render_text rfl

end ParseOutcome.Context
