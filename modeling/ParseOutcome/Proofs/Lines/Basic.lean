import Mathlib.Data.List.Induction
import ParseOutcome.Source.Context

/-!
# Lines and where they are cut

A run of symbols is split into lines at its newlines.  When two runs stand one after the
other, the last line of the first and the first line of the second become one line, and
the other lines stay what they are.  So a position cuts the lines of a run: what stands
before the position ends in one part of a line, and what stands after it begins with the
other part.

Locations are found by counting, lines by splitting.  The two meet in `IsCut.location_eq`:
one symbol more, at the end of a run, does to the number of its lines and to the length of
the last one what it does to the location.
-/

namespace ParseOutcome.Context

variable {α : Type}

/-! ## The extent of lines -/

/-- How many symbols some lines take up, each with a newline that ends it. -/
def extent : List (List α) → Nat
  | [] => 0
  | line :: block => line.length + 1 + extent block

@[simp] theorem extent_nil : extent ([] : List (List α)) = 0 := rfl

@[simp] theorem extent_cons (line : List α) (block : List (List α)) :
    extent (line :: block) = line.length + 1 + extent block := rfl

@[simp] theorem extent_append (block block' : List (List α)) :
    extent (block ++ block') = extent block + extent block' := by
  induction block with
  | nil => simp
  | cons line rest ih => rw [List.cons_append, extent_cons, extent_cons, ih, ← Nat.add_assoc]

/-- A line ends, newline included, before any later line begins. -/
theorem extent_take_add_le {block : List (List α)} {number number' : Nat}
    (hlt : number < number') (hlength : number < block.length) :
    extent (block.take number) + (block[number].length + 1) ≤ extent (block.take number') := by
  obtain ⟨more, rfl⟩ := Nat.exists_eq_add_of_le (Nat.succ_le_of_lt hlt)
  rw [List.take_add, List.take_succ_eq_append_getElem hlength]
  simp only [extent_append, extent_cons, extent_nil]
  omega

variable [DecidableEq α] [Symbol α] {symbols : List α}

/-! ## Splitting -/

theorem exists_lines_eq_cons (symbols : List α) :
    ∃ line after, lines symbols = line :: after :=
  List.exists_cons_of_ne_nil (List.splitOn_ne_nil _ _)

theorem exists_lines_eq_concat (symbols : List α) :
    ∃ before line, lines symbols = before ++ [line] :=
  ⟨_, _, (List.dropLast_concat_getLast (List.splitOn_ne_nil _ _)).symm⟩

theorem lines_newline_cons (rest : List α) :
    lines (Symbol.newline :: rest) = [] :: lines rest := by
  simp [lines, List.splitOn_cons_eq_if_modifyHead]

theorem lines_cons {symbol : α} (hsymbol : symbol ≠ Symbol.newline) {rest line : List α}
    {after : List (List α)} (hrest : lines rest = line :: after) :
    lines (symbol :: rest) = (symbol :: line) :: after := by
  unfold lines at hrest ⊢
  rw [List.splitOn_cons_eq_if_modifyHead, if_neg (by simpa using hsymbol), hrest,
    List.modifyHead_cons]

theorem newline_notMem_of_mem_lines {line : List α} (hline : line ∈ lines symbols) :
    Symbol.newline ∉ line := by
  induction symbols generalizing line with
  | nil =>
      obtain rfl : line = [] := by simpa [lines] using hline
      exact List.not_mem_nil
  | cons symbol rest ih =>
      by_cases hsymbol : symbol = Symbol.newline
      · rw [hsymbol, lines_newline_cons] at hline
        rcases List.mem_cons.mp hline with rfl | hline
        · exact List.not_mem_nil
        · exact ih hline
      · obtain ⟨first, after, hrest⟩ := exists_lines_eq_cons rest
        rw [lines_cons hsymbol hrest] at hline
        rw [hrest] at ih
        rcases List.mem_cons.mp hline with rfl | hline
        · intro hmem
          rcases List.mem_cons.mp hmem with hnewline | hmem
          · exact hsymbol hnewline.symm
          · exact ih List.mem_cons_self hmem
        · exact ih (List.mem_cons_of_mem _ hline)

/-- Every line is ended by a newline, except for the last. -/
theorem length_add_one_eq_extent (symbols : List α) :
    symbols.length + 1 = extent (lines symbols) := by
  induction symbols with
  | nil => rfl
  | cons symbol rest ih =>
      by_cases hsymbol : symbol = Symbol.newline
      · rw [hsymbol, lines_newline_cons, extent_cons, ← ih, List.length_cons, List.length_nil]
        omega
      · obtain ⟨line, after, hrest⟩ := exists_lines_eq_cons rest
        rw [hrest, extent_cons] at ih
        rw [lines_cons hsymbol hrest, extent_cons, List.length_cons, List.length_cons]
        omega

/-- Every newline begins one more line. -/
theorem length_lines (symbols : List α) :
    (lines symbols).length = symbols.count Symbol.newline + 1 := by
  induction symbols with
  | nil => rfl
  | cons symbol rest ih =>
      by_cases hsymbol : symbol = Symbol.newline
      · rw [hsymbol, lines_newline_cons, List.length_cons, ih, List.count_cons_self]
      · obtain ⟨line, after, hrest⟩ := exists_lines_eq_cons rest
        rw [lines_cons hsymbol hrest, List.length_cons, List.count_cons_of_ne hsymbol, ← ih, hrest,
          List.length_cons]

/-- What a run begins with: the first symbol of its first line, or else the newline that
ends this line, if another follows. -/
theorem head?_eq_of_lines {line : List α} {after : List (List α)}
    (hlines : lines symbols = line :: after) :
    symbols.head? = line.head?.or (after.head?.map fun _ => Symbol.newline) := by
  cases symbols with
  | nil =>
      obtain ⟨rfl, rfl⟩ : [] = line ∧ [] = after := by simpa [lines] using hlines
      rfl
  | cons symbol rest =>
      obtain ⟨first, others, hrest⟩ := exists_lines_eq_cons rest
      by_cases hsymbol : symbol = Symbol.newline
      · rw [hsymbol, lines_newline_cons, hrest] at hlines
        obtain ⟨rfl, rfl⟩ := List.cons.inj hlines
        rw [hsymbol]
        rfl
      · rw [lines_cons hsymbol hrest] at hlines
        obtain ⟨rfl, rfl⟩ := List.cons.inj hlines
        rfl

theorem lines_append {first second : List α} {before : List (List α)} {left right : List α}
    {after : List (List α)} (hfirst : lines first = before ++ [left])
    (hsecond : lines second = right :: after) :
    lines (first ++ second) = before ++ (left ++ right) :: after := by
  induction first generalizing before left with
  | nil =>
      have hempty : [] ++ [[]] = before ++ [left] := hfirst
      obtain ⟨rfl, rfl⟩ := List.append_singleton_inj.mp hempty
      exact hsecond
  | cons symbol rest ih =>
      obtain ⟨before', left', hrest⟩ := exists_lines_eq_concat rest
      rw [List.cons_append]
      by_cases hsymbol : symbol = Symbol.newline
      · rw [hsymbol, lines_newline_cons, hrest, ← List.cons_append] at hfirst
        obtain ⟨rfl, rfl⟩ := List.append_singleton_inj.mp hfirst
        rw [hsymbol, lines_newline_cons, ih hrest, List.cons_append]
      · -- the symbol comes to the front of the first line, which may be the last as well
        cases before' with
        | nil =>
            have hconcat : [] ++ [symbol :: left'] = before ++ [left] :=
              (lines_cons hsymbol hrest).symm.trans hfirst
            obtain ⟨rfl, rfl⟩ := List.append_singleton_inj.mp hconcat
            exact lines_cons hsymbol (ih hrest)
        | cons line others =>
            have hconcat : ((symbol :: line) :: others) ++ [left'] = before ++ [left] :=
              (lines_cons hsymbol hrest).symm.trans hfirst
            obtain ⟨rfl, rfl⟩ := List.append_singleton_inj.mp hconcat
            exact lines_cons hsymbol (ih hrest)

/-! ## Cutting -/

/-- The lines of a run of symbols, cut at a position: the lines before the one that is cut,
its part before the position, its part after it, and the lines after. -/
structure IsCut (symbols : List α) (position : Nat) (before : List (List α))
    (left right : List α) (after : List (List α)) : Prop where
  lines_take : lines (symbols.take position) = before ++ [left]
  lines_drop : lines (symbols.drop position) = right :: after

theorem exists_isCut (symbols : List α) (position : Nat) :
    ∃ before left right after, IsCut symbols position before left right after := by
  obtain ⟨before, left, htake⟩ := exists_lines_eq_concat (symbols.take position)
  obtain ⟨right, after, hdrop⟩ := exists_lines_eq_cons (symbols.drop position)
  exact ⟨before, left, right, after, htake, hdrop⟩

/-- Counting to the end of a run counts its lines, and the symbols of the last one. -/
theorem foldl_past_eq {before : List (List α)} {left : List α}
    (hlines : lines symbols = before ++ [left]) :
    symbols.foldl Location.past Location.origin = ⟨before.length + 1, left.length⟩ := by
  -- from the end: the last symbol either begins a line or is put on the last one
  induction symbols using List.reverseRecOn generalizing before left with
  | nil =>
      have hempty : [] ++ [[]] = before ++ [left] := hlines
      obtain ⟨rfl, rfl⟩ := List.append_singleton_inj.mp hempty
      rfl
  | append_singleton rest symbol ih =>
      obtain ⟨before', left', hrest⟩ := exists_lines_eq_concat rest
      rw [List.foldl_append, List.foldl_cons, List.foldl_nil, ih hrest, Location.past]
      by_cases hsymbol : symbol = Symbol.newline
      · have hsingle : lines [symbol] = [[], []] := hsymbol ▸ lines_newline_cons []
        have happend : lines (rest ++ [symbol]) = (before' ++ [left']) ++ [[]] := by
          rw [lines_append hrest hsingle, List.append_nil, List.append_assoc]
          rfl
        obtain ⟨rfl, rfl⟩ := List.append_singleton_inj.mp (hlines.symm.trans happend)
        simp [hsymbol]
      · have hsingle : lines [symbol] = [[symbol]] := lines_cons hsymbol rfl
        have happend := lines_append hrest hsingle
        obtain ⟨rfl, rfl⟩ := List.append_singleton_inj.mp (hlines.symm.trans happend)
        simp [hsymbol]

namespace IsCut

variable {position : Nat} {before after : List (List α)} {left right : List α}

theorem lines_eq (cut : IsCut symbols position before left right after) :
    lines symbols = before ++ (left ++ right) :: after := by
  have happend := lines_append cut.lines_take cut.lines_drop
  rwa [List.take_append_drop] at happend

theorem location_eq (cut : IsCut symbols position before left right after) :
    Location.ofPosition symbols position = ⟨before.length + 1, left.length⟩ :=
  foldl_past_eq cut.lines_take

/-- The lines before the cut, and the part of the line before the position, are all that
stands before the position. -/
theorem min_eq_extent (cut : IsCut symbols position before left right after) :
    min position symbols.length = extent before + left.length := by
  have hlength := length_add_one_eq_extent (symbols.take position)
  rw [cut.lines_take, List.length_take, extent_append, extent_cons, extent_nil] at hlength
  omega

/-- What stands at the position. -/
theorem getElem?_min_eq (cut : IsCut symbols position before left right after) :
    symbols[min position symbols.length]? =
      right.head?.or (after.head?.map fun _ => Symbol.newline) := by
  rw [← head?_eq_of_lines cut.lines_drop, List.head?_drop]
  rcases Nat.le_total position symbols.length with hle | hge
  · rw [Nat.min_eq_left hle]
  · rw [Nat.min_eq_right hge, List.getElem?_eq_none (Nat.le_refl _),
      List.getElem?_eq_none hge]

end IsCut

end ParseOutcome.Context
