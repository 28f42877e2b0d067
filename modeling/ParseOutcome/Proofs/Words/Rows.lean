import Mathlib.Data.Nat.Digits.Defs
import Mathlib.Data.String.Basic
import ParseOutcome.Proofs.Lines.Basic
import ParseOutcome.Proofs.Words.Location

/-!
# Rows on a machine

A machine shows the lines around a position by going over all lines of the source, with the
number of the next as a word.  It passes over those before the first within reach and stops at
the first beyond.  The mark is put below the row of the position, as far to the right as the
gutter has bytes and the offset has symbols.

The lines still to come are numbered from the index on (`rowsFrom_eq_ok`).  A line beyond reach
ends the loop, and nothing is left out, as all later lines are beyond reach too.  A gutter has
few characters, all of one byte, and an offset is less than `2 ^ 63`, so there is a word for the
width of the mark.
-/

namespace ParseOutcome

variable {α : Type}

namespace Context

/-! ## Gutters -/

theorem utf8Size_of_mem_toString {number : Nat} {c : Char}
    (hc : c ∈ (toString number).toList) : c.utf8Size = 1 := by
  have hmem : c ∈ Nat.toDigits 10 number := Nat.toList_repr (n := number) ▸ hc
  have hdigit := Nat.isDigit_of_mem_toDigits (by omega) (Nat.le_refl 10) hmem
  rw [Char.isDigit, Bool.and_eq_true, decide_eq_true_eq, decide_eq_true_eq] at hdigit
  exact Char.utf8Size_eq_one_iff.mpr (UInt32.le_trans hdigit.2 (by decide))

/-- Text of characters that take one byte each has as many bytes as characters. -/
theorem utf8Len_eq_length {text : List Char} (htext : ∀ c ∈ text, c.utf8Size = 1) :
    String.utf8Len text = text.length := by
  induction text with
  | nil => rfl
  | cons c rest ih =>
      rw [List.forall_mem_cons] at htext
      rw [String.utf8Len_cons, ih htext.2, htext.1, List.length_cons]

theorem utf8ByteSize_toString (number : Nat) :
    (toString number).utf8ByteSize = (toString number).length := by
  have hdigits : String.utf8Len (toString number).toList = (toString number).toList.length :=
    utf8Len_eq_length fun c hc => utf8Size_of_mem_toString hc
  rwa [← String.utf8ByteSize_ofList, String.ofList_toList, String.length_toList] at hdigits

/-- A gutter has as many bytes as characters. -/
theorem utf8ByteSize_gutter (number target : Nat) :
    (gutter number target).utf8ByteSize = (gutter number target).length := by
  have hbar : " | ".utf8ByteSize = " | ".length := rfl
  have hside : (if number = target then "  > " else "    ").utf8ByteSize =
      (if number = target then "  > " else "    ").length := by
    split <;> rfl
  unfold gutter
  rw [String.utf8ByteSize_append, String.utf8ByteSize_append, String.length_append,
    String.length_append, hside, hbar, utf8ByteSize_toString]

/-- The number of a line is a word, so its gutter is no longer than this. -/
theorem length_gutter_le (number : UInt64) (target : Nat) :
    (gutter number.toNat target).length ≤ 27 := by
  have hnumber : number.toNat < 10 ^ 20 := Nat.lt_trans number.toNat_lt (by decide)
  have hdigits : (toString number.toNat).length ≤ 20 :=
    Nat.repr_length number.toNat 20 (by decide) hnumber
  have hbar : " | ".length = 3 := rfl
  have hside : (if number.toNat = target then "  > " else "    ").length = 4 := by
    split <;> rfl
  unfold gutter
  rw [String.length_append, String.length_append, hside, hbar]
  omega

/-! ## Lines in turn -/

theorem length_le_extent (block : List (List α)) : block.length ≤ extent block := by
  induction block with
  | nil => exact Nat.le_refl _
  | cons line rest ih =>
      rw [List.length_cons, extent_cons]
      omega

variable [Symbol α]

/-- What is shown of one line. -/
def rowsOf (location : Location) (entry : List α × Nat) : List String :=
  row location.line entry.1 entry.2 ::
    if entry.2 = location.line then [marker location] else []

theorem rowsOf_self (location : Location) (line : List α) :
    rowsOf location (line, location.line) =
      [row location.line line location.line, marker location] := by
  rw [rowsOf, if_pos rfl]

theorem rowsOf_of_ne {location : Location} {number : Nat} (hne : number ≠ location.line)
    (line : List α) : rowsOf location (line, number) = [row location.line line number] := by
  rw [rowsOf, if_neg hne]

/-- What is shown of some lines, the first of which has this number. -/
def rowsFrom (location : Location) (number : Nat) (block : List (List α)) : List String :=
  ((block.zipIdx number).filter fun entry =>
    decide (location.line - reach ≤ entry.2 ∧ entry.2 ≤ location.line + reach)).flatMap
      (rowsOf location)

variable {location : Location} {number : Nat} {line : List α} {block : List (List α)}

theorem rowsFrom_cons_of_near
    (hnear : location.line - reach ≤ number ∧ number ≤ location.line + reach) :
    rowsFrom location number (line :: block) =
      rowsOf location (line, number) ++ rowsFrom location (number + 1) block := by
  rw [rowsFrom, List.zipIdx_cons, List.filter_cons_of_pos (by simpa using hnear),
    List.flatMap_cons]
  rfl

theorem rowsFrom_cons_of_far
    (hfar : ¬(location.line - reach ≤ number ∧ number ≤ location.line + reach)) :
    rowsFrom location number (line :: block) = rowsFrom location (number + 1) block := by
  rw [rowsFrom, List.zipIdx_cons, List.filter_cons_of_neg (by simpa using hfar)]
  rfl

/-- Nothing is shown of lines beyond reach. -/
theorem rowsFrom_eq_nil (hbeyond : location.line + reach < number) :
    rowsFrom location number block = [] := by
  have hnone : ((block.zipIdx number).filter fun entry =>
      decide (location.line - reach ≤ entry.2 ∧ entry.2 ≤ location.line + reach)) = [] := by
    rw [List.filter_eq_nil_iff]
    intro entry hentry hnear
    have hle : number ≤ entry.2 := List.le_snd_of_mem_zipIdx hentry
    have hreach := (of_decide_eq_true hnear).2
    omega
  rw [rowsFrom, hnone]
  rfl

/-- There are at most as many lines as symbols, and one. -/
theorem length_lines_le [DecidableEq α] (symbols : List α) :
    (lines symbols).length ≤ symbols.length + 1 := by
  rw [length_add_one_eq_extent]
  exact length_le_extent (lines symbols)

end Context

/-! ## What a machine shows -/

namespace Word

variable [Symbol α]

/-- The row of a line, and the mark below it if it is the line of the spot. -/
def rowsOf (spot : Spot) (number : UInt64) (line : List α) : Except Panic (List String) := do
  let gutter := Context.gutter number.toNat spot.line.toNat
  let row := gutter ++ Symbol.render line
  if number = spot.line then
    let width ← add (.ofNat gutter.utf8ByteSize) spot.offset
    return [row, String.ofList (List.replicate width.toNat ' ') ++ "^--- here"]
  else return [row]

/-- The rows of the lines from the first number to the last, where the lines to go over come
after `index` others. -/
def rowsFrom (spot : Spot) (first last : UInt64) :
    UInt64 → List (List α) → Except Panic (List String)
  | _, [] => return []
  | index, line :: rest => do
      let next ← add index 1
      let number ← add index 1
      if number < first then rowsFrom spot first last next rest
      else if last < number then return []
      else
        let shown ← rowsOf spot number line
        let below ← rowsFrom spot first last next rest
        return shown ++ below

variable {spot : Spot}

/-- The row of a line and its mark are what is shown of the line. -/
theorem rowsOf_eq_ok (hoffset : 2 * spot.offset.toNat < UInt64.size) (number : UInt64)
    (line : List α) :
    rowsOf spot number line = .ok (Context.rowsOf spot.toLocation (line, number.toNat)) := by
  rcases eq_or_ne number spot.line with rfl | hnumber
  · -- the gutter has few bytes, so there is a word for the width of the mark
    have hlength := Context.length_gutter_le spot.line spot.line.toNat
    have hsize : 64 < UInt64.size := by decide
    generalize hgutter : Context.gutter spot.line.toNat spot.line.toNat = gutter at hlength
    have hbytes : (UInt64.ofNat gutter.utf8ByteSize).toNat = gutter.length := by
      rw [← hgutter, Context.utf8ByteSize_gutter, hgutter]
      exact UInt64.toNat_ofNat_of_lt' (by omega)
    have hfits : (UInt64.ofNat gutter.utf8ByteSize).toNat + spot.offset.toNat < UInt64.size := by
      omega
    obtain ⟨width, hadd, hwidth⟩ := exists_add_eq_ok hfits
    have hmarker : String.ofList (List.replicate width.toNat ' ') ++ "^--- here" =
        Context.marker spot.toLocation := by
      rw [hwidth, hbytes, ← hgutter]
      rfl
    refine Eq.trans ?_ (congrArg Except.ok (Context.rowsOf_self spot.toLocation line).symm)
    simp only [rowsOf, if_true, hgutter, hadd, ok_bind, hmarker]
    rw [← hgutter]
    rfl
  · have hne : number.toNat ≠ spot.toLocation.line :=
      fun heq => hnumber (UInt64.toNat_inj.mp heq)
    rw [Context.rowsOf_of_ne hne, rowsOf, if_neg hnumber]
    rfl

/-- The loop over lines that are numbered from the index on shows what there is to show of
them. -/
theorem rowsFrom_eq_ok (hoffset : 2 * spot.offset.toNat < UInt64.size) {first last : UInt64}
    (hfirst : first.toNat = spot.line.toNat - 2) (hlast : last.toNat = spot.line.toNat + 2)
    (block : List (List α)) {index : UInt64}
    (hindex : index.toNat + block.length < UInt64.size) :
    rowsFrom spot first last index block =
      .ok (Context.rowsFrom spot.toLocation (index.toNat + 1) block) := by
  induction block generalizing index with
  | nil => rfl
  | cons line rest ih =>
      rw [List.length_cons] at hindex
      have hone : (1 : UInt64).toNat = 1 := rfl
      obtain ⟨number, hadd, hnumber⟩ :=
        exists_add_eq_ok (show index.toNat + (1 : UInt64).toNat < UInt64.size by omega)
      have hnumber' : number.toNat = index.toNat + 1 := hnumber
      have hrest := ih (show number.toNat + rest.length < UInt64.size by omega)
      have hline : spot.toLocation.line = spot.line.toNat := rfl
      have hreach : Context.reach = 2 := rfl
      rw [rowsFrom, hadd, ok_bind, ok_bind, ← hnumber']
      by_cases hbefore : number < first
      · -- too far above: the line is passed over
        have hlt := UInt64.lt_iff_toNat_lt.mp hbefore
        rw [if_pos hbefore, hrest, Context.rowsFrom_cons_of_far (by omega)]
      · by_cases hafter : last < number
        · -- too far below, and so are all that follow
          have hlt := UInt64.lt_iff_toNat_lt.mp hafter
          rw [if_neg hbefore, if_pos hafter, Context.rowsFrom_eq_nil (by omega)]
          rfl
        · have hge := UInt64.le_iff_toNat_le.mp (UInt64.not_lt.mp hbefore)
          have hle := UInt64.le_iff_toNat_le.mp (UInt64.not_lt.mp hafter)
          rw [if_neg hbefore, if_neg hafter, rowsOf_eq_ok hoffset, ok_bind, hrest, ok_bind,
            Context.rowsFrom_cons_of_near (by omega)]
          rfl

/-! ## The rows of a position -/

variable [DecidableEq α]

/-- The rows shown for a position. -/
def rows (symbols : List α) (position : UInt64) : Except Panic (List String) := do
  let spot ← locate symbols position
  let first := subCapped spot.line 2
  let last ← add spot.line 2
  rowsFrom spot first last 0 (Context.lines symbols)

/-- The machine shows the rows of a position. -/
theorem rows_eq_ok {symbols : List α} (hsymbols : 2 * symbols.length < UInt64.size)
    (position : UInt64) :
    rows symbols position = .ok (Context.rows symbols position.toNat) := by
  obtain ⟨spot, hlocate, hlocation, hline, hoffset⟩ := exists_locate_eq_ok hsymbols position
  have hsize : 64 < UInt64.size := by decide
  have htwo : (2 : UInt64).toNat = 2 := rfl
  have hcount := Context.length_lines_le symbols
  obtain ⟨last, hadd, hlast⟩ :=
    exists_add_eq_ok (show spot.line.toNat + (2 : UInt64).toNat < UInt64.size by omega)
  have hindex : (0 : UInt64).toNat + (Context.lines symbols).length < UInt64.size := by
    have hzero : (0 : UInt64).toNat = 0 := rfl
    omega
  have hrows := rowsFrom_eq_ok (show 2 * spot.offset.toNat < UInt64.size by omega)
    (toNat_subCapped spot.line 2) hlast (Context.lines symbols) hindex
  rw [rows, hlocate, ok_bind, hadd, ok_bind, hrows, hlocation]
  rfl

end Word

end ParseOutcome
