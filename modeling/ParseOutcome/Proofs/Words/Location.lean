import ParseOutcome.Source.Location
import ParseOutcome.Proofs.Words.Place

/-!
# Locations on a machine

A machine finds a location by going over the symbols before the position, with three words in
mind: the index of the next symbol, the number of the line, and the index at which the line
starts.  The offset is what is left of the position when the start of the line is taken away.

At every turn of the loop the three words tell the location so far (`Tally.Tells`): the line
starts as far before the index as the offset says, and is not numbered higher than one more
than the index.  So whatever is added is a word, and nothing is taken away that was not there.
-/

namespace ParseOutcome

open Word

variable {α : Type} [DecidableEq α] [Symbol α]

/-- A location as a machine has it. -/
structure Spot where
  line : UInt64
  offset : UInt64

def Spot.toLocation (spot : Spot) : Location :=
  ⟨spot.line.toNat, spot.offset.toNat⟩

/-- The text shown for a location. -/
def Spot.display (spot : Spot) : String :=
  "line " ++ toString spot.line ++ ", offset " ++ toString spot.offset

/-- What is kept in mind while lines are counted. -/
structure Tally where
  /-- The index of the next symbol. -/
  index : UInt64
  /-- The number of the line. -/
  line : UInt64
  /-- The index at which the line starts. -/
  start : UInt64

/-- Where counting begins. -/
def Tally.origin : Tally := ⟨0, 1, 0⟩

/-- Counts one symbol. -/
def Tally.step (tally : Tally) (symbol : α) : Except Panic Tally := do
  let next ← add tally.index 1
  if symbol = Symbol.newline then
    let line ← add tally.line 1
    let start ← add tally.index 1
    return ⟨next, line, start⟩
  else return ⟨next, tally.line, tally.start⟩

namespace Word

/-- The location of a position, which is taken to be the end if it is past it. -/
def locate (symbols : List α) (position : UInt64) : Except Panic Spot := do
  let position := min position (size symbols)
  let before ← range symbols 0 position
  let tally ← before.foldlM Tally.step Tally.origin
  let offset ← sub position tally.start
  return ⟨tally.line, offset⟩

end Word

/-! ## Counting lines -/

/-- The words of a tally tell a location and how many symbols come before it. -/
structure Tally.Tells (tally : Tally) (location : Location) : Prop where
  line_eq : tally.line.toNat = location.line
  start_add_offset : tally.start.toNat + location.offset = tally.index.toNat
  line_le : tally.line.toNat ≤ tally.index.toNat + 1

/-- One symbol more is counted as the location past it. -/
theorem Tally.exists_step {tally : Tally} {location : Location} (tells : tally.Tells location)
    (hindex : tally.index.toNat + 2 < UInt64.size) (symbol : α) :
    ∃ tally' : Tally, tally.step symbol = .ok tally' ∧ tally'.Tells (location.past symbol) ∧
      tally'.index.toNat = tally.index.toNat + 1 := by
  obtain ⟨hline, hstart, hle⟩ := tells
  have hone : (1 : UInt64).toNat = 1 := rfl
  obtain ⟨next, hnext, hnextNat⟩ :=
    exists_add_eq_ok (show tally.index.toNat + (1 : UInt64).toNat < UInt64.size by omega)
  unfold Tally.step Location.past
  rw [hnext, ok_bind]
  by_cases hsymbol : symbol = Symbol.newline
  · -- a line starts at the next index, so there is nothing on it yet
    obtain ⟨line, hadd, hlineNat⟩ :=
      exists_add_eq_ok (show tally.line.toNat + (1 : UInt64).toNat < UInt64.size by omega)
    rw [if_pos hsymbol, if_pos hsymbol, hadd, ok_bind, ok_bind]
    refine ⟨⟨next, line, next⟩, rfl, ?_, hnextNat⟩
    constructor
    case line_eq =>
      show line.toNat = location.line + 1
      omega
    case start_add_offset => rfl
    case line_le =>
      show line.toNat ≤ next.toNat + 1
      omega
  · -- the line goes on, and the index moves away from its start
    rw [if_neg hsymbol, if_neg hsymbol]
    refine ⟨⟨next, tally.line, tally.start⟩, rfl, ?_, hnextNat⟩
    constructor
    case line_eq => exact hline
    case start_add_offset =>
      show tally.start.toNat + (location.offset + 1) = next.toNat
      omega
    case line_le =>
      show tally.line.toNat ≤ next.toNat + 1
      omega

theorem Tally.tells_origin : Tally.origin.Tells Location.origin :=
  ⟨rfl, rfl, Nat.le_refl _⟩

/-- All symbols of a list are counted. -/
theorem Tally.exists_foldlM (symbols : List α) {tally : Tally} {location : Location}
    (tells : tally.Tells location)
    (hindex : tally.index.toNat + symbols.length + 1 < UInt64.size) :
    ∃ tally' : Tally, symbols.foldlM Tally.step tally = .ok tally' ∧
      tally'.Tells (symbols.foldl Location.past location) ∧
      tally'.index.toNat = tally.index.toNat + symbols.length := by
  induction symbols generalizing tally location with
  | nil => exact ⟨tally, rfl, tells, rfl⟩
  | cons symbol rest ih =>
      rw [List.length_cons] at hindex
      obtain ⟨middle, hstep, hmiddle, hmiddleIndex⟩ :=
        Tally.exists_step tells (by omega) symbol
      obtain ⟨last, hrest, hlast, hlastIndex⟩ := ih hmiddle (by omega)
      refine ⟨last, ?_, hlast, ?_⟩
      · rw [List.foldlM_cons, hstep, ok_bind, hrest]
      · rw [hlastIndex, hmiddleIndex, List.length_cons]
        omega

variable {symbols : List α}

/-- The machine finds the location of a position, and it is not far from where the source
begins. -/
theorem Word.exists_locate_eq_ok (hsymbols : 2 * symbols.length < UInt64.size) (position : UInt64) :
    ∃ spot, locate symbols position = .ok spot ∧
      spot.toLocation = Location.ofPosition symbols position.toNat ∧
      spot.line.toNat ≤ symbols.length + 1 ∧ spot.offset.toNat ≤ symbols.length := by
  have hsize : 4 < UInt64.size := by decide
  have hlength : symbols.length < UInt64.size := by omega
  have hplace := toNat_min_size hlength position
  generalize hword : min position (size symbols) = place at hplace
  have hbefore : (symbols.take place.toNat).drop (0 : UInt64).toNat =
      symbols.take position.toNat := by
    rw [hplace, ← List.take_eq_take_min]
    rfl
  have hcount : (symbols.take position.toNat).length = place.toNat := by
    rw [hplace, List.length_take]
  have hrange : range symbols 0 place = .ok (symbols.take position.toNat) :=
    hbefore ▸ range_eq_ok hlength (Nat.zero_le _) (by omega)
  have hzero : Tally.origin.index.toNat = 0 := rfl
  -- the loop counts every symbol before the position, and its words tell the location
  obtain ⟨tally, hfold, ⟨hline, hstart, hle⟩, hindex⟩ :=
    Tally.exists_foldlM (symbols.take position.toNat) Tally.tells_origin (by omega)
  obtain ⟨offset, hsub, hoffset⟩ :=
    exists_sub_eq_ok (show tally.start.toNat ≤ place.toNat by omega)
  refine ⟨⟨tally.line, offset⟩, ?_, ?_, ?_, ?_⟩
  · simp only [locate, hword, hrange, ok_bind, hfold, hsub]
    rfl
  · have hoffset' : offset.toNat = (Location.ofPosition symbols position.toNat).offset := by
      show offset.toNat = ((symbols.take position.toNat).foldl Location.past .origin).offset
      omega
    show Location.mk tally.line.toNat offset.toNat = Location.ofPosition symbols position.toNat
    rw [hoffset', hline]
    rfl
  · show tally.line.toNat ≤ symbols.length + 1
    omega
  · show offset.toNat ≤ symbols.length
    omega

end ParseOutcome
