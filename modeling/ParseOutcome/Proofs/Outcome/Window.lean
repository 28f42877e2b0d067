import Mathlib.Order.Interval.Finset.Nat
import ParseOutcome.Outcome.Report
import ParseOutcome.Proofs.Text.Encoding

/-!
# The last bytes of a text

Of a source of bytes, the last ten before the remainder are shown, wherever the characters of
the text begin and end.  The first of the ten may belong to a character that begins before
them, and each byte of such an orphan is shown as a replacement; then come the characters that
lie within; and a character that goes on past the remainder is shown as one replacement.

## Strategy

The characters of a text are placed among its bytes.  A stretch of the bytes that begins
where a character does is read by induction over the text (`decode_take`), and a stretch that
begins anywhere by passing over the characters before it (`decode_drop_take`).  No character
has more than four bytes, so none reaches from before the last ten to past them.
-/

namespace ParseOutcome

namespace Utf8

/-- A character of a text, and the index of its first byte among those of the text. -/
structure Placed where
  char : Char
  start : Nat

/-- The index just past the last byte of a character. -/
def Placed.stop (entry : Placed) : Nat :=
  entry.start + entry.char.utf8Size

/-- The characters of a text whose bytes begin at an index. -/
def placedFrom : Nat → List Char → List Placed
  | _, [] => []
  | base, c :: rest => ⟨c, base⟩ :: placedFrom (base + c.utf8Size) rest

/-- The characters that lie within the bytes from `start` up to `stop`. -/
def whole (text : List Placed) (start stop : Nat) : List Char :=
  (text.filter fun entry => decide (start ≤ entry.start ∧ entry.stop ≤ stop)).map Placed.char

/-- Whether an index falls inside a character, after its first byte. -/
def Splits (text : List Placed) (index : Nat) : Prop :=
  ∃ entry ∈ text, entry.start < index ∧ index < entry.stop

instance (text : List Placed) (index : Nat) : Decidable (Splits text index) :=
  inferInstanceAs (Decidable (∃ entry ∈ text, entry.start < index ∧ index < entry.stop))

/-- The bytes from `start` up to `stop` that belong to a character which begins before
`start`. -/
def orphans (text : List Placed) (start stop : Nat) : Finset Nat :=
  (Finset.Ico start stop).filter fun index =>
    ∃ entry ∈ text, entry.start < start ∧ entry.start ≤ index ∧ index < entry.stop

/-- What is shown for the bytes from `start` up to `stop`: a replacement for every orphan, the
characters that lie within, and one replacement if the last one is cut. -/
def shown (text : List Placed) (start stop : Nat) : List Char :=
  List.replicate (orphans text start stop).card replacement ++ whole text start stop ++
    if Splits text stop then [replacement] else []

variable {base start stop : Nat} {text : List Char} {c : Char}

theorem base_le_start {entry : Placed} (hentry : entry ∈ placedFrom base text) :
    base ≤ entry.start := by
  induction text generalizing base with
  | nil => exact absurd hentry List.not_mem_nil
  | cons c rest ih =>
      rcases List.mem_cons.mp hentry with rfl | hrest
      · exact Nat.le_refl _
      · exact Nat.le_trans (Nat.le_add_right _ _) (ih hrest)

/-! ## Orphans -/

theorem orphans_eq_empty (hbase : start ≤ base) (stop : Nat) :
    orphans (placedFrom base text) start stop = ∅ := by
  rw [orphans, Finset.filter_eq_empty_iff]
  rintro index - ⟨entry, hentry, hbefore, -⟩
  have hle := base_le_start hentry
  omega

/-- The orphans are the bytes that are left of a character that is cut. -/
theorem orphans_eq_Ico (hbase : base < start) (hcut : start ≤ base + c.utf8Size)
    (hstop : base + c.utf8Size ≤ stop) :
    orphans (placedFrom base (c :: text)) start stop = Finset.Ico start (base + c.utf8Size) := by
  ext index
  rw [orphans, Finset.mem_filter, Finset.mem_Ico, Finset.mem_Ico]
  constructor
  · rintro ⟨⟨hlow, -⟩, entry, hentry, hbefore, -, hlt⟩
    rcases List.mem_cons.mp hentry with rfl | hrest
    · exact ⟨hlow, hlt⟩
    · have hle := base_le_start hrest
      omega
  · rintro ⟨hlow, hlt⟩
    have hle : base ≤ index := Nat.le_of_lt (Nat.lt_of_lt_of_le hbase hlow)
    exact ⟨⟨hlow, by omega⟩, ⟨c, base⟩, List.mem_cons_self, hbase, hle, hlt⟩

theorem orphans_cons_of_stop_le {entry : Placed} (hbefore : entry.stop ≤ start)
    (rest : List Placed) (stop : Nat) :
    orphans (entry :: rest) start stop = orphans rest start stop := by
  refine Finset.filter_congr fun index hindex => ?_
  rw [Finset.mem_Ico] at hindex
  constructor
  · rintro ⟨other, hother, hbegins, hle, hlt⟩
    rcases List.mem_cons.mp hother with rfl | hrest
    · omega
    · exact ⟨other, hrest, hbegins, hle, hlt⟩
  · rintro ⟨other, hother, hbegins, hle, hlt⟩
    exact ⟨other, List.mem_cons_of_mem _ hother, hbegins, hle, hlt⟩

theorem card_orphans_le_three (text : List Placed) (start stop : Nat) :
    (orphans text start stop).card ≤ 3 := by
  have hsubset : orphans text start stop ⊆ Finset.Ico start (start + 3) := by
    intro index hindex
    obtain ⟨hrange, entry, -, hbefore, -, hlt⟩ := Finset.mem_filter.mp hindex
    have hlow := (Finset.mem_Ico.mp hrange).1
    have hsize := entry.char.utf8Size_le_four
    rw [Placed.stop] at hlt
    exact Finset.mem_Ico.mpr ⟨hlow, by omega⟩
  calc (orphans text start stop).card
      ≤ (Finset.Ico start (start + 3)).card := Finset.card_le_card hsubset
    _ = 3 := by
        rw [Nat.card_Ico]
        omega

/-! ## One more character -/

theorem whole_cons_of_within {entry : Placed} (hstart : start ≤ entry.start)
    (hstop : entry.stop ≤ stop) (rest : List Placed) :
    whole (entry :: rest) start stop = entry.char :: whole rest start stop := by
  rw [whole, List.filter_cons_of_pos (by simpa using ⟨hstart, hstop⟩), List.map_cons]
  rfl

theorem whole_cons_of_not_within {entry : Placed}
    (hnot : ¬(start ≤ entry.start ∧ entry.stop ≤ stop)) (rest : List Placed) :
    whole (entry :: rest) start stop = whole rest start stop := by
  rw [whole, List.filter_cons_of_neg (by simpa using hnot)]
  rfl

theorem whole_eq_nil {text : List Placed} (htext : ∀ entry ∈ text, stop < entry.stop) :
    whole text start stop = [] := by
  rw [whole, List.map_eq_nil_iff, List.filter_eq_nil_iff]
  intro entry hentry
  have hlt := htext entry hentry
  simp
  omega

theorem splits_cons_iff {entry : Placed} {rest : List Placed} {index : Nat} :
    Splits (entry :: rest) index ↔
      (entry.start < index ∧ index < entry.stop) ∨ Splits rest index := by
  simp [Splits]

theorem not_splits_of_le_base {index : Nat} (hindex : index ≤ base) :
    ¬Splits (placedFrom base text) index := by
  rintro ⟨entry, hentry, hlt, -⟩
  have hle := base_le_start hentry
  omega

theorem splits_cons_iff_of_stop_le (entry : Placed) {rest : List Placed} {index : Nat}
    (hbefore : entry.stop ≤ index) : Splits (entry :: rest) index ↔ Splits rest index := by
  rw [splits_cons_iff, or_iff_right]
  rintro ⟨-, hlt⟩
  omega

/-! ## Stretches of the bytes -/

theorem drop_utf8EncodeChar_append (hcount : c.utf8Size ≤ start - base) (rest : List UInt8) :
    (String.utf8EncodeChar c ++ rest).drop (start - base) =
      rest.drop (start - (base + c.utf8Size)) := by
  rw [List.drop_append, List.drop_eq_nil_of_le, List.nil_append, String.length_utf8EncodeChar,
    Nat.sub_sub]
  rwa [String.length_utf8EncodeChar]

theorem take_encode_cons (hcount : c.utf8Size ≤ stop - base) (text : List Char) :
    (encode (c :: text)).take (stop - base) =
      String.utf8EncodeChar c ++ (encode text).take (stop - (base + c.utf8Size)) := by
  rw [encode_cons, List.take_append, List.take_of_length_le, String.length_utf8EncodeChar,
    Nat.sub_sub]
  rwa [String.length_utf8EncodeChar]

/-- A stretch that begins where a text does. -/
theorem decode_take (text : List Char) (hstart : start ≤ base) (hstop : base ≤ stop) :
    decode ((encode text).take (stop - base)) =
      whole (placedFrom base text) start stop ++
        if Splits (placedFrom base text) stop then [replacement] else [] := by
  induction text generalizing base with
  | nil => simp [placedFrom, whole, Splits, decode, decodeFrom, flush]
  | cons c rest ih =>
      have hsize := c.utf8Size_pos
      rw [placedFrom]
      rcases Nat.lt_or_ge stop (base + c.utf8Size) with hcut | hwithin
      · -- the stretch ends within the first character, or before it
        have hwhole : whole (⟨c, base⟩ :: placedFrom (base + c.utf8Size) rest) start stop = [] := by
          refine whole_eq_nil fun entry hentry => ?_
          rcases List.mem_cons.mp hentry with rfl | hrest
          · exact hcut
          · have hle := base_le_start hrest
            rw [Placed.stop]
            omega
        have hsplits : Splits (⟨c, base⟩ :: placedFrom (base + c.utf8Size) rest) stop ↔
            base < stop := by
          rw [splits_cons_iff, or_iff_left (not_splits_of_le_base (Nat.le_of_lt hcut))]
          exact ⟨And.left, fun hlt => ⟨hlt, hcut⟩⟩
        rw [hwhole, List.nil_append]
        rcases Nat.eq_or_lt_of_le hstop with rfl | hlt
        · rw [if_neg (fun hsplit => Nat.lt_irrefl _ (hsplits.mp hsplit)), Nat.sub_self,
            List.take_zero]
          rfl
        · have hlength : stop - base ≤ (String.utf8EncodeChar c).length := by
            rw [String.length_utf8EncodeChar]
            omega
          rw [if_pos (hsplits.mpr hlt), encode_cons, List.take_append_of_le_length hlength]
          exact decode_take_utf8EncodeChar (by omega) (by omega)
      · have hrest := ih (show start ≤ base + c.utf8Size by omega) hwithin
        rw [take_encode_cons (by omega), decode_utf8EncodeChar_append, hrest,
          whole_cons_of_within hstart hwithin, List.cons_append]
        simp only [splits_cons_iff_of_stop_le ⟨c, base⟩ hwithin]

/-- A stretch that begins anywhere, and ends after the character in which it begins. -/
theorem decode_drop_take (text : List Char) (hstart : base ≤ start) (hstop : start ≤ stop)
    (hreach : start ≤ base ∨ start + 4 ≤ stop) :
    decode (((encode text).take (stop - base)).drop (start - base)) =
      shown (placedFrom base text) start stop := by
  induction text generalizing base with
  | nil => simp [placedFrom, shown, orphans, whole, Splits, decode, decodeFrom, flush]
  | cons c rest ih =>
      have hsize := c.utf8Size_pos
      have hfour := c.utf8Size_le_four
      rcases Nat.eq_or_lt_of_le hstart with rfl | hlt
      · rw [Nat.sub_self, List.drop_zero, decode_take _ (Nat.le_refl _) hstop, shown,
          orphans_eq_empty (Nat.le_refl _), Finset.card_empty, List.replicate_zero,
          List.nil_append]
      · have hwithin : base + c.utf8Size ≤ stop := by omega
        have hnot : ¬(start ≤ (⟨c, base⟩ : Placed).start ∧ (⟨c, base⟩ : Placed).stop ≤ stop) :=
          fun hboth => Nat.not_lt_of_le hboth.1 hlt
        rw [take_encode_cons (by omega)]
        rcases Nat.lt_or_ge start (base + c.utf8Size) with hcut | hpassed
        · -- the stretch begins within the first character
          have hlength : start - base ≤ (String.utf8EncodeChar c).length := by
            rw [String.length_utf8EncodeChar]
            omega
          have hrest := decode_take rest (Nat.le_of_lt hcut) hwithin
          have hcard : (orphans (placedFrom base (c :: rest)) start stop).card =
              c.utf8Size - (start - base) := by
            rw [orphans_eq_Ico hlt (Nat.le_of_lt hcut) hwithin, Nat.card_Ico]
            omega
          rw [List.drop_append_of_le_length hlength,
            decode_drop_utf8EncodeChar_append (by omega), hrest, shown, hcard, placedFrom,
            whole_cons_of_not_within hnot, List.append_assoc]
          simp only [splits_cons_iff_of_stop_le ⟨c, base⟩ hwithin]
        · rw [drop_utf8EncodeChar_append (by omega), ih hpassed (by omega), shown, shown,
            placedFrom, orphans_cons_of_stop_le hpassed, whole_cons_of_not_within hnot]
          simp only [splits_cons_iff_of_stop_le ⟨c, base⟩ hwithin]

end Utf8

namespace Outcome

open Utf8

variable {T : Type}

/-- **The last bytes of a text.**  Where a source holds the bytes of a text, what is shown of
them before a remainder, at the border of a character or inside one, are at most three
replacements, one for each of the last ten bytes that belongs to a character which begins
before them; then the characters that lie within the ten bytes; and then one more replacement
if, and only if, the remainder falls inside a character. -/
theorem recentlyConsumed_of_text (s : String) (outcome : Outcome UInt8 T)
    (hsource : outcome.remainder.source.symbols = s.toUTF8.data.toList) :
    let stop := outcome.remainder.position
    let start := stop - 10
    let text := placedFrom 0 s.toList
    (orphans text start stop).card ≤ 3 ∧
      outcome.recentlyConsumed = String.ofList
        (List.replicate (orphans text start stop).card replacement ++ whole text start stop ++
          if Splits text stop then [replacement] else []) := by
  intro stop start text
  refine ⟨card_orphans_le_three _ _ _, ?_⟩
  have hslice : outcome.remainder.slice start stop =
      ((encode s.toList).take (stop - 0)).drop (start - 0) := by
    rw [← toList_toUTF8, ← hsource]
    rfl
  have hdecode := decode_drop_take s.toList (Nat.zero_le start)
    (Nat.sub_le stop 10) (by omega)
  rw [← hslice] at hdecode
  exact congrArg String.ofList hdecode

/-- The first character has three bytes and the last has two. -/
def cutText : String := "\u20ACabcdefg\u00E9"

/-- A failure inside the last character, ten bytes after the first byte of the first. -/
def failedInside : Outcome UInt8 Nat :=
  .failed ⟨Source.ofBuffer 0 cutText.toUTF8.data.toList, 11, by decide⟩ []

theorem recentlyConsumed_failedInside :
    failedInside.remainder.source.symbols = cutText.toUTF8.data.toList ∧
      failedInside.recentlyConsumed = "\uFFFD\uFFFDabcdefg\uFFFD" := by
  obtain ⟨-, hshown⟩ := recentlyConsumed_of_text cutText failedInside rfl
  exact ⟨rfl, hshown.trans (by decide)⟩

end Outcome

end ParseOutcome
