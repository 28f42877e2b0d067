import Mathlib.Data.List.Chain
import ParseOutcome.Proofs.Parser.Forward
import ParseOutcome.Proofs.Sample

/-!
# Walking through a source

A source is read in two ways: symbol by symbol, where one looks at the cursor and moves to the
next place, and stretch by stretch, where one takes a slice between two positions.  Each has a
border of its own at the end of the source: there is no symbol to see, the next place is the
same place, and a slice is cut off.  They agree on what there is to read.

One step of a walk takes the first symbol off the slice that begins at the cursor
(`slice_of_value?`), and past the end there is nothing to take (`slice_of_atEnd`).  So the walk
by a number of steps (`walk_eq_slice`) and the walk to the end (`walkToEnd_eq_slice`) both peel
a slice symbol by symbol.  Slices that meet join to one, and what consecutive steps pass over is
a row of such slices (`flatten_slices`).
-/

namespace ParseOutcome

open Sample

variable {α : Type}

/-! ## Slices that meet -/

namespace Source

variable {source : Source α} {start middle stop : Nat}

theorem slice_append_slice (hfirst : start ≤ middle) (hsecond : middle ≤ stop) :
    source.slice start middle ++ source.slice middle stop = source.slice start stop := by
  obtain ⟨count, rfl⟩ := Nat.exists_eq_add_of_le hfirst
  obtain ⟨count', rfl⟩ := Nat.exists_eq_add_of_le hsecond
  unfold slice
  -- both sides are prefixes of what comes after `start`
  rw [List.drop_take, List.drop_take, List.drop_take, ← List.drop_drop]
  have hcount : start + count + count' - start = count + count' := by omega
  rw [Nat.add_sub_cancel_left, Nat.add_sub_cancel_left, hcount, List.take_add]

theorem slice_eq_nil (horder : stop ≤ start) : source.slice start stop = [] := by
  apply List.eq_nil_of_length_eq_zero
  rw [length_slice]
  omega

theorem slice_whole (source : Source α) : source.slice 0 source.length = source.symbols := by
  unfold slice length
  rw [List.drop_zero, List.take_length]

end Source

namespace Cursor

/-! ## Walking -/

/-- The symbols seen from a cursor on, by looking and moving to the next place so many times, or
until there is nothing to see. -/
def walk : Nat → Cursor α → List α
  | 0, _ => []
  | steps + 1, cursor =>
      match cursor.value? with
      | none => []
      | some symbol => symbol :: walk steps cursor.next

theorem remaining_next_lt {cursor : Cursor α} (hmore : ¬ cursor.atEnd = true) :
    cursor.next.remaining < cursor.remaining := by
  have hwithin := cursor.position_le_length
  rw [atEnd_iff] at hmore
  unfold remaining
  rw [source_next, position_next]
  omega

/-- The symbols seen from a cursor on, by looking and moving to the next place until that is the
end. -/
def walkToEnd (cursor : Cursor α) : List α :=
  if cursor.atEnd = true then [] else cursor.value?.toList ++ walkToEnd cursor.next
termination_by cursor.remaining
decreasing_by
  exact remaining_next_lt ‹_›

/-- What is passed over on the way from a cursor to others, one after another. -/
def slices : Cursor α → List (Cursor α) → List (List α)
  | _, [] => []
  | start, stop :: stops => start.slice start.position stop.position :: slices stop stops

variable {cursor : Cursor α} {symbol : α}

/-! ## One step -/

theorem value?_eq_none_iff_atEnd : cursor.value? = none ↔ cursor.atEnd = true :=
  value?_eq_none_iff.trans atEnd_iff.symm

theorem slice_of_atEnd (hend : cursor.atEnd = true) (stop : Nat) :
    cursor.slice cursor.position stop = [] := by
  apply List.eq_nil_of_length_eq_zero
  have hposition := atEnd_iff.mp hend
  have hlength : (cursor.slice cursor.position stop).length =
      min stop cursor.source.length - cursor.position := Source.length_slice ..
  omega

/-- **One step of a walk takes the first symbol of a slice.** -/
theorem slice_of_value? (hvalue : cursor.value? = some symbol) {stop : Nat}
    (hstop : cursor.position < stop) :
    cursor.slice cursor.position stop = symbol :: cursor.slice cursor.next.position stop := by
  obtain ⟨hwithin, hsymbol⟩ := List.getElem?_eq_some_iff.mp hvalue
  have hnext : cursor.next.position = cursor.position + 1 := Nat.min_eq_left hwithin
  have hlength : cursor.position < (cursor.source.symbols.take stop).length := by
    rw [List.length_take]
    exact Nat.lt_min.mpr ⟨hstop, hwithin⟩
  show (cursor.source.symbols.take stop).drop cursor.position = _
  rw [List.drop_eq_getElem_cons hlength, List.getElem_take, hsymbol, hnext]
  rfl

/-! ## A whole walk -/

theorem walk_eq_slice (steps : Nat) (cursor : Cursor α) :
    cursor.walk steps = cursor.slice cursor.position (cursor.advance steps).position := by
  induction steps generalizing cursor with
  | zero =>
      have hstay : (cursor.advance 0).position ≤ cursor.position := Nat.min_le_left _ _
      exact (Source.slice_eq_nil hstay).symm
  | succ steps ih =>
      unfold walk
      cases hvalue : cursor.value? with
      | none => exact (slice_of_atEnd (value?_eq_none_iff_atEnd.mp hvalue) _).symm
      | some symbol =>
          have hwithin : cursor.position < cursor.source.length :=
            (List.getElem?_eq_some_iff.mp hvalue).1
          -- there is a symbol to see, so no step is lost by the cut at the end
          have hlater : (cursor.next.advance steps).position =
              (cursor.advance (steps + 1)).position := by
            simp only [position_advance, position_next, source_next]
            omega
          have hstop : cursor.position < (cursor.advance (steps + 1)).position := by
            rw [position_advance]
            omega
          rw [slice_of_value? hvalue hstop, ← hlater]
          exact congrArg _ (ih cursor.next)

theorem walkToEnd_eq_slice (cursor : Cursor α) :
    cursor.walkToEnd = cursor.slice cursor.position cursor.source.length := by
  induction cursor using walkToEnd.induct with
  | case1 cursor hend =>
      rw [walkToEnd, if_pos hend]
      exact (slice_of_atEnd hend _).symm
  | case2 cursor hmore ih =>
      obtain ⟨symbol, hvalue⟩ : ∃ symbol, cursor.value? = some symbol :=
        Option.ne_none_iff_exists'.mp (value?_eq_none_iff_atEnd.not.mpr hmore)
      have hwithin : cursor.position < cursor.source.length :=
        (List.getElem?_eq_some_iff.mp hvalue).1
      rw [walkToEnd, if_neg hmore, slice_of_value? hvalue hwithin, hvalue]
      exact congrArg _ ih

theorem length_walk (steps : Nat) (cursor : Cursor α) :
    (cursor.walk steps).length = min steps (cursor.source.length - cursor.position) := by
  have hwithin := cursor.position_le_length
  have hlength : (cursor.slice cursor.position (cursor.advance steps).position).length =
      min (cursor.advance steps).position cursor.source.length - cursor.position :=
    Source.length_slice ..
  rw [walk_eq_slice, hlength, position_advance]
  omega

/-! ## Consecutive steps -/

/-- **What consecutive steps pass over is what they pass over together**, as long as none goes
back. -/
theorem flatten_slices {start : Cursor α} {stops : List (Cursor α)}
    (hahead : (start :: stops).IsChain Precedes) :
    (slices start stops).flatten =
      start.slice start.position (stops.getLastD start).position := by
  -- slices meet only in order, so the order of the first and the last place is proved along
  suffices hjoined : start.Precedes (stops.getLastD start) ∧ (slices start stops).flatten =
      start.slice start.position (stops.getLastD start).position from hjoined.2
  induction stops generalizing start with
  | nil => exact ⟨Precedes.refl start, (Source.slice_eq_nil (Nat.le_refl _)).symm⟩
  | cons stop stops ih =>
      obtain ⟨hfirst, hrest⟩ := List.isChain_cons_cons.mp hahead
      obtain ⟨hlast, hjoined⟩ := ih hrest
      rw [List.getLastD_cons]
      refine ⟨hfirst.trans hlast, ?_⟩
      rw [slices, List.flatten_cons, hjoined]
      unfold slice
      rw [hfirst.source_eq]
      exact Source.slice_append_slice hfirst.position_le hlast.position_le

/-- **Walking and slicing agree.**  So many looks from a cursor on see just the slice up to where
so many steps lead, which has one symbol for each step until the source ends.  There is nothing
to see exactly at the end, and a walk from the beginning to the end sees the source.  Slices
that meet make one slice, wherever their borders are, and a slice that stops before it starts
has nothing in it.  So what consecutive steps pass over, none of which goes back, is what they
pass over together. -/
theorem walking_is_slicing (cursor : Cursor α) :
    (∀ steps, cursor.walk steps = cursor.slice cursor.position (cursor.advance steps).position ∧
        (cursor.walk steps).length = min steps (cursor.source.length - cursor.position)) ∧
      (cursor.value? = none ↔ cursor.atEnd = true) ∧
      (cursor.atEnd = true ↔ cursor.position = cursor.source.length) ∧
      (∀ source : Source α, (origin source).walkToEnd = source.symbols) ∧
      (∀ start middle stop, start ≤ middle → middle ≤ stop →
        cursor.slice start middle ++ cursor.slice middle stop = cursor.slice start stop) ∧
      (∀ start stop, stop < start → cursor.slice start stop = []) ∧
      ∀ stops : List (Cursor α), (cursor :: stops).IsChain Precedes →
        (cursor.slices stops).flatten =
          cursor.slice cursor.position (stops.getLastD cursor).position := by
  refine ⟨?_, value?_eq_none_iff_atEnd, atEnd_iff, ?_, ?_, ?_, ?_⟩
  · intro steps
    exact ⟨walk_eq_slice steps cursor, length_walk steps cursor⟩
  · intro source
    rw [walkToEnd_eq_slice]
    exact source.slice_whole
  · intro start middle stop hfirst hsecond
    exact Source.slice_append_slice hfirst hsecond
  · intro start stop hlt
    exact Source.slice_eq_nil (Nat.le_of_lt hlt)
  · intro stops hahead
    exact flatten_slices hahead

/-- Behind the bracket of `(12` two symbols are left, however many steps are made; slices that end
beyond the source meet as others do; and a step by one and one to the end pass over both. -/
theorem walking_behind_bracket :
    (behindBracket.walk 7).length = 2 ∧
      behindBracket.slice 0 2 ++ behindBracket.slice 2 9 = behindBracket.slice 0 9 ∧
      behindBracket.slice 2 1 = [] ∧
      [behindBracket, behindBracket.next, behindBracket.next.advance 9].IsChain Precedes ∧
      (behindBracket.slices [behindBracket.next, behindBracket.next.advance 9]).flatten =
        behindBracket.slice behindBracket.position (behindBracket.next.advance 9).position := by
  have hahead :
      [behindBracket, behindBracket.next, behindBracket.next.advance 9].IsChain Precedes := by
    simp only [List.isChain_cons_cons, List.isChain_singleton, and_true]
    exact ⟨precedes_advance behindBracket 1, precedes_advance behindBracket.next 9⟩
  obtain ⟨hwalk, -, -, -, hmeet, hempty, hpassed⟩ := walking_is_slicing behindBracket
  exact ⟨(hwalk 7).2, hmeet 0 2 9 (by decide) (by decide), hempty 2 1 (by decide), hahead,
    hpassed _ hahead⟩

end Cursor

end ParseOutcome
