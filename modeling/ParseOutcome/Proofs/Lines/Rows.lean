import Mathlib.Data.List.Sort
import ParseOutcome.Proofs.Lines.Location

/-!
# The rows that are shown

For a position there is one row for each line within reach of the line that holds it, from
two lines before, or else the first line, to two lines after, or else the last.  One of the
rows has the arrow, and below it, and nowhere else, is the mark.

The numbered lines within reach are in the order of their numbers, so it is enough to know
which they are (`nearby_eq`).  The located line is one of them, and parts the rows above it from
those below.  No row is mistaken for a mark, since what comes first in a row, after blanks, is
the arrow or a digit.
-/

namespace ParseOutcome.Context

variable {α : Type}

/-- Numbered lines in the order of their numbers are determined by which they are. -/
theorem eq_of_mem_iff {block block' : List (List α × Nat)}
    (hblock : block.Pairwise fun entry entry' => entry.2 < entry'.2)
    (hblock' : block'.Pairwise fun entry entry' => entry.2 < entry'.2)
    (hmem : ∀ entry, entry ∈ block ↔ entry ∈ block') : block = block' := by
  have hirrefl : Std.Irrefl fun entry entry' : List α × Nat => entry.2 < entry'.2 :=
    ⟨fun _ => Nat.lt_irrefl _⟩
  have hantisymm : Std.Antisymm fun entry entry' : List α × Nat => entry.2 < entry'.2 :=
    ⟨fun _ _ hlt hgt => absurd hgt (Nat.lt_asymm hlt)⟩
  exact hblock.eq_of_mem_iff hblock' hmem

variable [DecidableEq α] [Symbol α] {symbols : List α} {target : Nat}

/-! ## The lines within reach -/

theorem mem_nearby {entry : List α × Nat} :
    entry ∈ nearby target symbols ↔
      1 ≤ entry.2 ∧ (lines symbols)[entry.2 - 1]? = some entry.1 ∧
        target ≤ entry.2 + 2 ∧ entry.2 ≤ target + 2 := by
  simp only [nearby, reach, List.mem_filter, List.mem_zipIdx_iff_le_and_getElem?_sub,
    decide_eq_true_eq, Nat.sub_le_iff_le_add]
  exact and_assoc

theorem pairwise_nearby (target : Nat) (symbols : List α) :
    (nearby target symbols).Pairwise fun entry entry' => entry.2 < entry'.2 := by
  have hnumbers : (((lines symbols).zipIdx 1).map Prod.snd).Pairwise (· < ·) := by
    rw [List.zipIdx_map_snd]
    exact List.pairwise_lt_range' 1
  exact (List.pairwise_map.mp hnumbers).filter _

/-- The line with this number, counted from 1, and empty where there is none. -/
def lineAt (symbols : List α) (number : Nat) : List α :=
  (lines symbols)[number - 1]?.getD []

theorem getElem?_eq_some_iff_lineAt {number : Nat} {line : List α} (hpos : 1 ≤ number) :
    (lines symbols)[number - 1]? = some line ↔
      number ≤ (lines symbols).length ∧ lineAt symbols number = line := by
  unfold lineAt
  rcases Nat.lt_or_ge (number - 1) (lines symbols).length with hlt | hge
  · rw [List.getElem?_eq_getElem hlt, Option.some.injEq, Option.getD_some]
    exact ⟨fun hline => ⟨by omega, hline⟩, And.right⟩
  · rw [List.getElem?_eq_none hge]
    exact ⟨fun hline => absurd hline (by simp), fun hline => absurd hline.1 (by omega)⟩

/-- The number of the first line that is shown. -/
def firstShown (target : Nat) : Nat :=
  max 1 (target - 2)

/-- The number of the last line that is shown. -/
def lastShown (target : Nat) (symbols : List α) : Nat :=
  min (lines symbols).length (target + 2)

theorem firstShown_le (hpos : 1 ≤ target) : firstShown target ≤ target :=
  Nat.max_le.mpr ⟨hpos, Nat.sub_le _ _⟩

theorem le_lastShown (hle : target ≤ (lines symbols).length) :
    target ≤ lastShown target symbols :=
  Nat.le_min.mpr ⟨hle, Nat.le_add_right _ _⟩

/-- All lines from the first to the last are shown, each once and in order. -/
theorem nearby_eq (target : Nat) (symbols : List α) :
    nearby target symbols =
      (List.range' (firstShown target) (lastShown target symbols + 1 - firstShown target)).map
        fun number => (lineAt symbols number, number) := by
  -- both lists are in the order of the numbers, so they are equal if they have the same entries
  refine eq_of_mem_iff (pairwise_nearby target symbols) ?_ fun entry => ?_
  · exact List.pairwise_map.mpr (List.pairwise_lt_range' 1)
  · obtain ⟨line, number⟩ := entry
    simp only [mem_nearby, List.mem_map, List.mem_range'_1, Prod.mk.injEq, firstShown, lastShown]
    constructor
    · rintro ⟨hpos, hline, hlow, hhigh⟩
      obtain ⟨hle, rfl⟩ := (getElem?_eq_some_iff_lineAt hpos).mp hline
      exact ⟨number, by omega, rfl, rfl⟩
    · rintro ⟨_, hnumber, rfl, rfl⟩
      exact ⟨by omega, (getElem?_eq_some_iff_lineAt (by omega)).mpr ⟨by omega, rfl⟩, by omega,
        by omega⟩

/-! ## The rows -/

/-- The row of a line that is not pointed out. -/
def plainRow (symbols : List α) (number : Nat) : String :=
  "    " ++ toString number ++ " | " ++ Symbol.render (lineAt symbols number)

/-- What stands before the line that is pointed out. -/
def arrow (number : Nat) : String :=
  "  > " ++ toString number ++ " | "

/-- The row of the line that is pointed out. -/
def arrowRow (symbols : List α) (number : Nat) : String :=
  arrow number ++ Symbol.render (lineAt symbols number)

/-- The rows for a location: one for each line from the first that is shown to the last, and
the mark below the row of the location. -/
def layout (symbols : List α) (location : Location) : List String :=
  (List.range' (firstShown location.line) (location.line - firstShown location.line)).map
      (plainRow symbols) ++
    [arrowRow symbols location.line, marker location] ++
    (List.range' (location.line + 1) (lastShown location.line symbols - location.line)).map
      (plainRow symbols)

/-- The numbers of the lines that are shown, parted at the one that is pointed out. -/
theorem range'_shown_eq (hpos : 1 ≤ target) (hle : target ≤ (lines symbols).length) :
    List.range' (firstShown target) (lastShown target symbols + 1 - firstShown target) =
      List.range' (firstShown target) (target - firstShown target) ++
        target :: List.range' (target + 1) (lastShown target symbols - target) := by
  have hfirst := firstShown_le hpos
  have hlast := le_lastShown hle
  have hcount : lastShown target symbols + 1 - firstShown target =
      (target - firstShown target) + (lastShown target symbols - target + 1) := by omega
  rw [hcount, ← List.range'_append_1, Nat.add_sub_cancel' hfirst, List.range'_succ]

/-- Away from the target, a line has its row and nothing more. -/
theorem flatMap_row_eq {numbers : List Nat} {location : Location}
    (htarget : location.line ∉ numbers) :
    (numbers.flatMap fun number =>
      row location.line (lineAt symbols number) number ::
        if number = location.line then [marker location] else []) =
      numbers.map (plainRow symbols) := by
  rw [List.map_eq_flatMap]
  refine List.flatMap_congr fun number hnumber => ?_
  have hne : number ≠ location.line := fun heq => htarget (heq ▸ hnumber)
  rw [if_neg hne, row, gutter, if_neg hne, plainRow]

theorem rowsAt_eq_layout {location : Location} (hpos : 1 ≤ location.line)
    (hle : location.line ≤ (lines symbols).length) :
    rowsAt location symbols = layout symbols location := by
  -- the located line is the only one with a mark below, and it is in neither of the other parts
  have habove : location.line ∉
      List.range' (firstShown location.line) (location.line - firstShown location.line) := by
    rw [List.mem_range'_1]
    omega
  have hbelow : location.line ∉
      List.range' (location.line + 1) (lastShown location.line symbols - location.line) := by
    rw [List.mem_range'_1]
    omega
  rw [rowsAt, nearby_eq, List.flatMap_map, range'_shown_eq hpos hle, List.flatMap_append,
    List.flatMap_cons, flatMap_row_eq habove, flatMap_row_eq hbelow, if_pos rfl, row, gutter,
    if_pos rfl, layout]
  simp [arrowRow, arrow]

/-! ## Which entry is the mark -/

/-- Whether an entry is a mark: blanks, and then the pointer. -/
def isMark (entry : String) : Bool :=
  decide (entry.toList.dropWhile (· = ' ') = "^--- here".toList)

theorem isMark_marker (location : Location) : isMark (marker location) = true := by
  simp only [isMark, marker, String.toList_append, String.toList_ofList, decide_eq_true_eq]
  rw [List.dropWhile_append_of_pos]
  · rfl
  · intro c hc
    simpa using List.eq_of_mem_replicate hc

/-- What begins, after blanks, with another character than the pointer is no mark. -/
theorem isMark_eq_false {entry : String} {blanks rest : List Char} {c : Char}
    (hentry : entry.toList = blanks ++ c :: rest) (hblanks : ∀ blank ∈ blanks, blank = ' ')
    (hblank : c ≠ ' ') (hpointer : c ≠ '^') : isMark entry = false := by
  have hdrop : entry.toList.dropWhile (· = ' ') = c :: rest := by
    rw [hentry, List.dropWhile_append_of_pos (by simpa using hblanks),
      List.dropWhile_cons_of_neg (by simpa using hblank)]
  rw [isMark, hdrop, decide_eq_false_iff_not]
  intro heq
  exact hpointer (List.cons.inj heq).1

theorem exists_toString_eq_cons (number : Nat) :
    ∃ digit rest, (toString number).toList = digit :: rest ∧ digit.isDigit = true := by
  obtain ⟨digit, rest, hdigits⟩ :=
    List.exists_cons_of_ne_nil (Nat.toDigits_ne_nil (n := number) (b := 10))
  refine ⟨digit, rest, Nat.toList_repr.trans hdigits, ?_⟩
  have hmem : digit ∈ Nat.toDigits 10 number := hdigits ▸ List.mem_cons_self
  exact Nat.isDigit_of_mem_toDigits (by omega) (Nat.le_refl 10) hmem

theorem isMark_plainRow (symbols : List α) (number : Nat) :
    isMark (plainRow symbols number) = false := by
  obtain ⟨digit, rest, hnumber, hdigit⟩ := exists_toString_eq_cons number
  have hrow : (plainRow symbols number).toList = [' ', ' ', ' ', ' '] ++
      digit :: (rest ++ (" | ".toList ++ (Symbol.render (lineAt symbols number)).toList)) := by
    rw [plainRow, String.toList_append, String.toList_append, String.toList_append, hnumber]
    simp
  refine isMark_eq_false hrow (by simp) ?_ ?_
  · rintro rfl
    exact absurd hdigit (by decide)
  · rintro rfl
    exact absurd hdigit (by decide)

theorem isMark_arrowRow (symbols : List α) (number : Nat) :
    isMark (arrowRow symbols number) = false := by
  have hrow : (arrowRow symbols number).toList = [' ', ' '] ++ '>' :: ' ' ::
      ((toString number).toList ++
        (" | ".toList ++ (Symbol.render (lineAt symbols number)).toList)) := by
    rw [arrowRow, arrow, String.toList_append, String.toList_append, String.toList_append]
    simp
  exact isMark_eq_false hrow (by simp) (by decide) (by decide)

theorem filter_isMark_layout (symbols : List α) (location : Location) :
    (layout symbols location).filter isMark = [marker location] := by
  have hplain : ∀ numbers : List Nat, (numbers.map (plainRow symbols)).filter isMark = [] := by
    intro numbers
    rw [List.filter_eq_nil_iff, List.forall_mem_map]
    intro number _
    simp [isMark_plainRow]
  rw [layout, List.filter_append, List.filter_append, hplain, hplain]
  simp [isMark_arrowRow, isMark_marker]

/-! ## Where the mark points -/

theorem idxOf_marker (location : Location) :
    (marker location).toList.idxOf '^' = (arrow location.line).length + location.offset := by
  have hgutter : gutter location.line location.line = arrow location.line := by
    rw [gutter, if_pos rfl, arrow]
  rw [marker, hgutter, String.toList_append, String.toList_ofList, List.idxOf_append_of_notMem]
  · rw [List.length_replicate]
    rfl
  · intro hmem
    exact absurd (List.eq_of_mem_replicate hmem) (by decide)

/-- On its line, a location has the symbol at its place, unless a newline or nothing stands
there. -/
theorem getElem?_lineAt_of_addresses {location : Location} {place : Nat}
    (haddresses : location.Addresses symbols place) :
    (lineAt symbols location.line)[location.offset]? =
      symbols[place]?.filter fun symbol => decide (symbol ≠ Symbol.newline) := by
  have hlt : location.line - 1 < (lines symbols).length :=
    Nat.lt_of_lt_of_le (Nat.sub_lt haddresses.line_pos Nat.one_pos) haddresses.line_le
  have hline : lineAt symbols location.line = (lines symbols)[location.line - 1] := by
    rw [lineAt, List.getElem?_eq_getElem hlt, Option.getD_some]
  have hnewline := newline_notMem_of_mem_lines (List.getElem_mem hlt)
  rw [haddresses.symbol_eq, hline]
  cases hsymbol : (lines symbols)[location.line - 1][location.offset]? with
  -- the line ends there, and a newline stands behind it or nothing at all
  | none => cases (lines symbols)[location.line]? <;> simp [Option.filter]
  | some symbol =>
      have hne : symbol ≠ Symbol.newline :=
        fun heq => hnewline (heq ▸ List.mem_of_getElem? hsymbol)
      simp [Option.filter, hne]

theorem getElem?_arrowRow (text : List Char) (location : Location) :
    (arrowRow text location.line).toList[(arrow location.line).length + location.offset]? =
      (lineAt text location.line)[location.offset]? := by
  have hrender : (Symbol.render (lineAt text location.line)).toList =
      lineAt text location.line := String.toList_ofList
  rw [arrowRow, String.toList_append, hrender, ← String.length_toList,
    List.getElem?_append_right (Nat.le_add_right _ _), Nat.add_sub_cancel_left]

/-- **The rows around a position**, past the end around the end of the source: one row for
each line from two before the located line, or else the first, to two after, or else the
last, with the arrow before the located line only, and exactly one mark, right below it.

In a text, the mark stands below the character at the position, or just past the last
character of the line, where the line or the text ends. -/
theorem rows_around_position :
    (∀ {α : Type} [DecidableEq α] [Symbol α] (symbols : List α) (position : Nat),
      let location := Location.ofPosition symbols position
      firstShown location.line ≤ location.line ∧
        location.line ≤ lastShown location.line symbols ∧
        rows symbols position =
          (List.range' (firstShown location.line)
              (location.line - firstShown location.line)).map (plainRow symbols) ++
            [arrowRow symbols location.line, marker location] ++
            (List.range' (location.line + 1)
              (lastShown location.line symbols - location.line)).map (plainRow symbols) ∧
        (rows symbols position).filter isMark = [marker location]) ∧
      ∀ (text : List Char) (position : Nat),
        let location := Location.ofPosition text position
        let column := (marker location).toList.idxOf '^'
        column = ("  > " ++ toString location.line ++ " | ").length + location.offset ∧
          (arrowRow text location.line).toList[column]? =
            text[min position text.length]?.filter fun c => decide (c ≠ '\n') := by
  constructor
  · intro α _ _ symbols position location
    have haddresses := Location.addresses_ofPosition symbols position
    have hpos := haddresses.line_pos
    have hle := haddresses.line_le
    have hrows : rows symbols position = layout symbols location := rowsAt_eq_layout hpos hle
    refine ⟨firstShown_le hpos, le_lastShown hle, hrows, ?_⟩
    rw [hrows, filter_isMark_layout]
  · intro text position location column
    have hcolumn : column = (arrow location.line).length + location.offset :=
      idxOf_marker location
    refine ⟨hcolumn, ?_⟩
    rw [hcolumn, getElem?_arrowRow]
    exact getElem?_lineAt_of_addresses (Location.addresses_ofPosition text position)

end ParseOutcome.Context
