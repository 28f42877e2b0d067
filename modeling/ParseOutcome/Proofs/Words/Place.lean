import ParseOutcome.Cursor
import ParseOutcome.Proofs.Words.Basic

/-!
# Places on a machine

A machine has a cursor as a source and a word, and nothing keeps the word within the source
but the way it came about.  Sources are taken to hold fewer than `2 ^ 63` symbols, so every
position of one is a word.

Every cursor has its place on the machine, and what the machine makes of that place is the
place of what the cursor comes to (`Cursor.exactOnWords`).  So by induction the machine never
comes to any other places, and their positions are within the source
(`Place.Reached.exists_cursor`).  No sum is too great to be capped at the end of the source, and
a slice has both its ends cut off before it is taken, the start at the stop.
-/

namespace ParseOutcome

variable {α : Type}

/-- Whether a machine can hold a source: it has fewer than `2 ^ 63` symbols, half as many as
there are words. -/
def Source.Fits (source : Source α) : Prop :=
  2 * source.length < UInt64.size

/-- A cursor as a machine has it. -/
structure Place (α : Type) where
  source : Source α
  position : UInt64

/-- The place of a cursor on a machine. -/
def Cursor.place (cursor : Cursor α) : Place α :=
  ⟨cursor.source, .ofNat cursor.position⟩

namespace Place

open Word

/-- The beginning of a source. -/
def origin (source : Source α) : Place α :=
  ⟨source, 0⟩

/-- The place at a given position, refused beyond the end. -/
def ofPosition (source : Source α) (position : UInt64) : Except Misuse (Place α) :=
  if size source.symbols < position then
    .error (.positionOutOfBounds position.toNat (size source.symbols).toNat)
  else .ok ⟨source, position⟩

/-- The place `count` symbols on, or the end if fewer are left. -/
def advance (place : Place α) (count : UInt64) : Place α :=
  ⟨place.source, min (addCapped place.position count) (size place.source.symbols)⟩

/-- The place one symbol on; the end stays where it is. -/
def next (place : Place α) : Place α :=
  place.advance 1

/-- The symbol at the place, none at the end. -/
def value? (place : Place α) : Option α :=
  place.source.symbols[place.position.toNat]?

/-- Whether the place is the end. -/
def atEnd (place : Place α) : Bool :=
  decide (size place.source.symbols ≤ place.position)

/-- The symbols of the source from `start` up to `stop`. -/
def slice (place : Place α) (start stop : UInt64) : Except Panic (List α) :=
  let stop := min stop (size place.source.symbols)
  let start := min start stop
  range place.source.symbols start stop

/-- The places that a machine comes to over a source. -/
inductive Reached (source : Source α) : Place α → Prop
  | origin : Reached source (origin source)
  | ofPosition {position : UInt64} {place : Place α}
      (hmade : ofPosition source position = .ok place) : Reached source place
  | advance {place : Place α} (count : UInt64) (hreached : Reached source place) :
      Reached source (place.advance count)
  | next {place : Place α} (hreached : Reached source place) : Reached source place.next

end Place

/-! ## One operation -/

open Word

variable {source : Source α}

/-- To cut both ends off first takes nothing away that was there. -/
theorem Source.slice_cut (source : Source α) (start stop : Nat) :
    source.slice (min start (min stop source.length)) (min stop source.length) =
      source.slice start stop := by
  have htake : source.symbols.take (min stop source.length) = source.symbols.take stop :=
    List.take_eq_take_min.symm
  have hlength : (source.symbols.take stop).length = min stop source.length := List.length_take
  unfold slice
  rw [htake]
  rcases Nat.le_total start (min stop source.length) with hle | hge
  · rw [Nat.min_eq_left hle]
  · rw [Nat.min_eq_right hge, List.drop_eq_nil_of_le (Nat.le_of_eq hlength),
      List.drop_eq_nil_of_le (hlength ▸ hge)]

theorem Source.Fits.length_lt (hfits : source.Fits) : source.symbols.length < UInt64.size :=
  Nat.lt_of_le_of_lt (Nat.le_mul_of_pos_left _ Nat.two_pos) hfits

theorem Source.Fits.toNat_size (hfits : source.Fits) :
    (size source.symbols).toNat = source.length :=
  Word.toNat_size hfits.length_lt

theorem Cursor.toNat_position_place {cursor : Cursor α}
    (hlength : cursor.source.symbols.length < UInt64.size) :
    cursor.place.position.toNat = cursor.position :=
  UInt64.toNat_ofNat_of_lt' (Nat.lt_of_le_of_lt cursor.position_le_length hlength)

/-- A place is that of a cursor if it has the same source and the number of the position. -/
theorem Place.eq_place {place : Place α} {cursor : Cursor α}
    (hlength : cursor.source.symbols.length < UInt64.size)
    (hsource : place.source = cursor.source)
    (hposition : place.position.toNat = cursor.position) : place = cursor.place := by
  have hword : place.position = cursor.place.position :=
    UInt64.toNat_inj.mp (hposition.trans (Cursor.toNat_position_place hlength).symm)
  show Place.mk place.source place.position = Place.mk cursor.source cursor.place.position
  rw [hsource, hword]

theorem Place.ofPosition_eq (hfits : source.Fits) (position : UInt64) :
    Place.ofPosition source position =
      (Cursor.ofPosition source position.toNat).map Cursor.place := by
  have hsize := hfits.toNat_size
  unfold Place.ofPosition Cursor.ofPosition
  by_cases hbeyond : size source.symbols < position
  · have hlt : source.length < position.toNat := hsize ▸ UInt64.lt_iff_toNat_lt.mp hbeyond
    rw [if_pos hbeyond, dif_neg (Nat.not_le_of_lt hlt), hsize]
    rfl
  · have hle : position.toNat ≤ source.length :=
      hsize ▸ UInt64.le_iff_toNat_le.mp (UInt64.not_lt.mp hbeyond)
    rw [if_neg hbeyond, dif_pos hle]
    exact congrArg _ (Place.eq_place hfits.length_lt rfl rfl)

/-- What the machine does at the place of a cursor: it comes to the places of the cursors
that the cursor leads to, and takes the symbols that the cursor takes. -/
structure Cursor.ExactOnWords (cursor : Cursor α) : Prop where
  position_eq : cursor.place.position.toNat = cursor.position
  position_le : cursor.place.position ≤ size cursor.source.symbols
  advance_eq : ∀ count : UInt64, cursor.place.advance count = (cursor.advance count.toNat).place
  next_eq : cursor.place.next = cursor.next.place
  value?_eq : cursor.place.value? = cursor.value?
  atEnd_eq : cursor.place.atEnd = cursor.atEnd
  slice_eq : ∀ start stop : UInt64,
    cursor.place.slice start stop = .ok (cursor.slice start.toNat stop.toNat)

namespace Cursor

variable {cursor : Cursor α}

theorem advance_place (hlength : cursor.source.symbols.length < UInt64.size) (count : UInt64) :
    cursor.place.advance count = (cursor.advance count.toNat).place := by
  refine Place.eq_place hlength rfl ?_
  calc (min (addCapped cursor.place.position count) (size cursor.source.symbols)).toNat
      = min (addCapped cursor.place.position count).toNat cursor.source.length :=
        toNat_min_size hlength _
    _ = min (cursor.place.position.toNat + count.toNat) cursor.source.length :=
        min_toNat_addCapped hlength
    _ = min (cursor.position + count.toNat) cursor.source.length := by
        rw [toNat_position_place hlength]

theorem slice_place (hfits : cursor.source.Fits) (start stop : UInt64) :
    cursor.place.slice start stop = .ok (cursor.slice start.toNat stop.toNat) := by
  have hsource : cursor.place.source = cursor.source := rfl
  unfold Place.slice
  rw [hsource]
  have hstop := toNat_min_size hfits.length_lt stop
  generalize min stop (size cursor.source.symbols) = stop' at hstop
  have hstart : (min start stop').toNat = min start.toNat stop'.toNat := UInt64.toNat_min ..
  -- the range is in order and within the source, so it is not refused
  have horder : (min start stop').toNat ≤ stop'.toNat := hstart ▸ Nat.min_le_right _ _
  have hwithin : stop'.toNat ≤ cursor.source.length := hstop ▸ Nat.min_le_right _ _
  have hcut := cursor.source.slice_cut start.toNat stop.toNat
  calc range cursor.source.symbols (min start stop') stop'
      = .ok (cursor.source.slice (min start stop').toNat stop'.toNat) :=
        range_eq_ok hfits.length_lt horder hwithin
    _ = .ok (cursor.slice start.toNat stop.toNat) := by
        rw [hstart, hstop]
        exact congrArg _ hcut

theorem atEnd_place (hfits : cursor.source.Fits) : cursor.place.atEnd = cursor.atEnd := by
  have hsize : (size cursor.place.source.symbols).toNat = cursor.source.length :=
    hfits.toNat_size
  unfold Place.atEnd atEnd
  rw [decide_eq_decide, UInt64.le_iff_toNat_le, hsize, toNat_position_place hfits.length_lt]

theorem exactOnWords (hfits : cursor.source.Fits) : cursor.ExactOnWords where
  position_eq := toNat_position_place hfits.length_lt
  position_le := by
    rw [UInt64.le_iff_toNat_le, toNat_position_place hfits.length_lt, hfits.toNat_size]
    exact cursor.position_le_length
  advance_eq := advance_place hfits.length_lt
  next_eq := advance_place hfits.length_lt 1
  value?_eq := by
    unfold Place.value? value?
    rw [toNat_position_place hfits.length_lt]
    rfl
  atEnd_eq := atEnd_place hfits
  slice_eq := slice_place hfits

end Cursor

/-! ## A whole run -/

/-- Every place that a machine comes to is that of a cursor. -/
theorem Place.Reached.exists_cursor {place : Place α} (hfits : source.Fits)
    (hreached : place.Reached source) :
    ∃ cursor : Cursor α, cursor.source = source ∧ cursor.place = place := by
  -- every operation leads from the place of a cursor to that of another
  induction hreached with
  | origin => exact ⟨Cursor.origin source, rfl, rfl⟩
  | @ofPosition position place hmade =>
      rw [Place.ofPosition_eq hfits] at hmade
      cases hcursor : Cursor.ofPosition source position.toNat with
      | error misuse => simp [hcursor, Except.map] at hmade
      | ok cursor =>
          rw [hcursor] at hmade
          exact ⟨cursor, (Cursor.ofPosition_eq_ok_iff.mp hcursor).1, Except.ok.inj hmade⟩
  | advance count hreached ih =>
      obtain ⟨cursor, rfl, rfl⟩ := ih
      exact ⟨cursor.advance count.toNat, rfl, (Cursor.advance_place hfits.length_lt count).symm⟩
  | next hreached ih =>
      obtain ⟨cursor, rfl, rfl⟩ := ih
      exact ⟨cursor.next, rfl, (Cursor.advance_place hfits.length_lt 1).symm⟩

end ParseOutcome
