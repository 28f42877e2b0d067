import ParseOutcome.Proofs.Lines.Rows
import ParseOutcome.Proofs.Text.Encoding
import ParseOutcome.Proofs.Text.Tokens

/-!
# Where the mark stands

The mark below a row is put as many columns to the right as there are symbols before the
position on its line.  In a text that is the column of the character at the position, since
every character takes one column.  A token takes a column for each digit and one for the space
behind it, and a character of a text that is read by bytes takes one column for all of its
bytes.  So the mark of a token is too far to the left, unless the token is the first of its
line, and the mark of a byte is too far to the right, unless the characters before it are ASCII.

The line that holds the position is cut there (`IsCut`), and so is what is shown for the line:
at a token by `Token.toList_render_append_cons`, at the border of a character by
`decode_encode`.  What remains is to compare a number of columns with a number of symbols.
-/

namespace ParseOutcome

namespace Context

variable {α : Type} [DecidableEq α] [Symbol α] {symbols : List α} {position : Nat}
  {before after : List (List α)} {left right : List α}

/-- The column of the pointer in the mark of a location. -/
def markColumn (location : Location) : Nat :=
  (marker location).toList.idxOf '^'

theorem IsCut.lineAt_eq (cut : IsCut symbols position before left right after) :
    lineAt symbols (before.length + 1) = left ++ right := by
  rw [lineAt, cut.lines_eq, Nat.add_sub_cancel, List.getElem?_append_right (Nat.le_refl _),
    Nat.sub_self]
  rfl

/-- On its line, a location stands between what comes before the position and the rest. -/
theorem exists_lineAt_eq (symbols : List α) (position : Nat) :
    ∃ left right, lineAt symbols (Location.ofPosition symbols position).line = left ++ right ∧
      (Location.ofPosition symbols position).offset = left.length := by
  obtain ⟨before, left, right, after, cut⟩ := exists_isCut symbols position
  rw [cut.location_eq]
  exact ⟨left, right, cut.lineAt_eq, rfl⟩

end Context

open Context

/-! ## Tokens -/

namespace Token

/-- What is shown of a line of tokens before the token at an offset, or all of it where the
line ends. -/
def shownBefore (line : List UInt32) (offset : Nat) : List Char :=
  match line.drop offset with
  | [] => (Symbol.render line).toList
  | _ :: _ => before (line.take offset)

/-- What is shown of a line of tokens from the token at an offset on. -/
def shownFrom (line : List UInt32) (offset : Nat) : List Char :=
  match line.drop offset with
  | [] => []
  | token :: later => digits token ++ behind later

variable {left right : List UInt32}

theorem shownBefore_length_nil (left : List UInt32) :
    shownBefore (left ++ []) left.length = (Symbol.render left).toList := by
  rw [shownBefore, List.drop_left, List.append_nil]

theorem shownBefore_length_cons (left : List UInt32) (token : UInt32) (later : List UInt32) :
    shownBefore (left ++ token :: later) left.length = before left := by
  rw [shownBefore, List.drop_left, List.take_left]

/-- The text of a line, parted at an offset. -/
theorem toList_render_eq_shown (line : List UInt32) (offset : Nat) :
    (Symbol.render line).toList = shownBefore line offset ++ shownFrom line offset := by
  unfold shownBefore shownFrom
  cases hdrop : line.drop offset with
  | nil => exact (List.append_nil _).symm
  | cons token later =>
      have hline : line = line.take offset ++ token :: later := by
        rw [← hdrop, List.take_append_drop]
      calc (Symbol.render line).toList
          = (Symbol.render (line.take offset ++ token :: later)).toList := by rw [← hline]
        _ = before (line.take offset) ++ (digits token ++ behind later) := by
            rw [toList_render_append_cons, List.append_assoc]

theorem length_digits_pos (token : UInt32) : 0 < (digits token).length :=
  List.length_pos_of_ne_nil (digits_ne_nil token)

theorem length_digits_eq_one_iff {token : UInt32} :
    (digits token).length = 1 ↔ token.toNat < 10 := by
  have hpos := length_digits_pos token
  have hle : (digits token).length ≤ 1 ↔ token.toNat < 10 ^ 1 := by
    rw [digits, Nat.toList_repr]
    exact Nat.length_toDigits_le_iff (by omega) (by omega)
  omega

/-- Every token takes a digit and a space, at least. -/
theorem two_mul_length_le (left : List UInt32) : 2 * left.length ≤ (before left).length := by
  induction left with
  | nil => exact Nat.le_refl _
  | cons token rest ih =>
      have hpos := length_digits_pos token
      have hlength : (before (token :: rest)).length =
          (digits token).length + 1 + (before rest).length := by
        simp [before]
        omega
      rw [List.length_cons]
      omega

/-- What is shown before a place takes as many columns as there are tokens before it, if there
is none, or a single one, which has one digit and ends the line. -/
theorem length_shownBefore_eq_iff (left right : List UInt32) :
    left.length = (shownBefore (left ++ right) left.length).length ↔
      left.length = 0 ∨
        ∃ token, left ++ right = [token] ∧ left.length = 1 ∧ token.toNat < 10 := by
  cases right with
  | cons token later =>
      -- a token follows, so each one before it takes a digit and a space
      rw [shownBefore_length_cons]
      have htwo := two_mul_length_le left
      constructor
      · intro heq
        exact .inl (by omega)
      · rintro (hzero | ⟨other, hsingle, hone, -⟩)
        · rw [List.eq_nil_of_length_eq_zero hzero]
          rfl
        · have hlength := congrArg List.length hsingle
          rw [List.length_append, List.length_cons, List.length_singleton] at hlength
          omega
  | nil =>
      -- the line ends there, so there is no space behind the last token
      rw [shownBefore_length_nil, List.append_nil]
      rcases List.eq_nil_or_concat left with rfl | ⟨earlier, token, rfl⟩
      · exact ⟨fun _ => .inl rfl, fun _ => rfl⟩
      · -- the tokens before the last are too long by themselves, so there are none
        have hshown : (Symbol.render (earlier ++ [token])).toList.length =
            (before earlier).length + (digits token).length := by
          rw [toList_render_append_cons, List.length_append, List.length_append]
          rfl
        have htwo := two_mul_length_le earlier
        have hpos := length_digits_pos token
        rw [List.concat_eq_append, hshown, List.length_append, List.length_singleton]
        constructor
        · intro heq
          obtain rfl : earlier = [] := List.eq_nil_of_length_eq_zero (by omega)
          have hone : (digits token).length = 1 := by
            simp [before] at heq
            omega
          exact .inr ⟨token, rfl, rfl, length_digits_eq_one_iff.mp hone⟩
        · rintro (hzero | ⟨other, hsingle, hone, hsmall⟩)
          · omega
          · obtain rfl : earlier = [] := List.eq_nil_of_length_eq_zero (by omega)
            obtain rfl : token = other := by simpa using hsingle
            rw [length_digits_eq_one_iff.mpr hsmall]
            rfl

end Token

/-! ## Texts that are read by bytes -/

namespace Utf8

variable {c : Char}

theorem newline_notMem_utf8EncodeChar (hc : c ≠ '\n') : 10 ∉ String.utf8EncodeChar c := by
  intro hmem
  have htails : ∀ number, (10 : UInt8) ≠ tail number := by
    intro number heq
    have hcontinues : IsContinuation 10 := heq ▸ isContinuation_tail number
    exact absurd hcontinues.1 (by decide)
  have hfirst : ∀ number, number ≠ 10 → number < 256 → (10 : UInt8) ≠ UInt8.ofNat number := by
    intro number hne hlt heq
    have htoNat := congrArg UInt8.toNat heq
    rw [UInt8.toNat_ofNat', Nat.mod_eq_of_lt hlt] at htoNat
    exact hne htoNat.symm
  have hcode : c.toNat ≠ 10 := fun hcode => hc (Char.toNat_inj.mp hcode)
  have hvalid : c.toNat < 0xD800 ∨ 0xDFFF < c.toNat ∧ c.toNat < 0x110000 := c.valid
  -- no continuation byte is a newline, and no first byte but that of the newline itself
  rcases utf8EncodeChar_cases c with ⟨hhigh, hbytes⟩ | ⟨hlow, hhigh, hbytes⟩ |
    ⟨hlow, hhigh, hbytes⟩ | ⟨hlow, hbytes⟩
  all_goals
    rw [hbytes] at hmem
    simp only [List.mem_cons, List.not_mem_nil, or_false, htails] at hmem
    exact hfirst _ (by omega) (by omega) hmem

/-- The lines of the bytes are the bytes of the lines. -/
theorem lines_encode (text : List Char) : lines (encode text) = (lines text).map encode := by
  induction text with
  | nil => rfl
  | cons c rest ih =>
      by_cases hc : c = '\n'
      · subst hc
        calc lines (encode ('\n' :: rest))
            = [] :: lines (encode rest) := lines_newline_cons (encode rest)
          _ = (lines ('\n' :: rest)).map encode := by
              rw [ih]
              exact congrArg (List.map encode) (lines_newline_cons rest).symm
      · -- there is no newline among the bytes, so they all come to the front of the first line
        obtain ⟨line, after, hrest⟩ := exists_lines_eq_cons rest
        have hbytes : lines (String.utf8EncodeChar c) = [] ++ [String.utf8EncodeChar c] :=
          List.splitOn_eq_singleton (newline_notMem_utf8EncodeChar hc)
        rw [hrest] at ih
        rw [encode_cons, lines_append hbytes ih, lines_cons hc hrest]
        rfl

/-- A text that is cut at a character is cut there as bytes. -/
theorem isCut_encode {first second : List Char} {before after : List (List Char)}
    {left right : List Char}
    (cut : IsCut (first ++ second) first.length before left right after) :
    IsCut (encode (first ++ second)) (encode first).length (before.map encode) (encode left)
      (encode right) (after.map encode) where
  lines_take := by
    have htake := cut.lines_take
    rw [List.take_left] at htake
    rw [encode_append, List.take_left, lines_encode, htake, List.map_append]
    rfl
  lines_drop := by
    have hdrop := cut.lines_drop
    rw [List.drop_left] at hdrop
    rw [encode_append, List.drop_left, lines_encode, hdrop]
    rfl

/-- On its line of bytes, a location at the border of a character stands between the bytes of
two texts. -/
theorem exists_lineAt_eq (first second : String) :
    let bytes := (first ++ second).toUTF8.data.toList
    let location := Location.ofPosition bytes first.toUTF8.size
    ∃ left right, lineAt bytes location.line = encode left ++ encode right ∧
      location.offset = (encode left).length := by
  intro bytes location
  obtain ⟨before, left, right, after, cut⟩ := exists_isCut (first.toList ++ second.toList)
    first.toList.length
  have hbytes : bytes = encode (first.toList ++ second.toList) := by
    rw [← String.toList_append]
    exact toList_toUTF8 (first ++ second)
  have hposition : first.toUTF8.size = (encode first.toList).length := by
    rw [← toList_toUTF8]
    rfl
  have cutBytes := isCut_encode cut
  have hlocation : location = ⟨(before.map encode).length + 1, (encode left).length⟩ := by
    rw [← cutBytes.location_eq, ← hbytes, ← hposition]
  rw [hlocation, hbytes]
  exact ⟨left, right, cutBytes.lineAt_eq, rfl⟩

/-- The bytes of a character are below `0x80` only where there is a single one. -/
theorem utf8Size_eq_one_iff_bytes :
    c.utf8Size = 1 ↔ ∀ byte ∈ String.utf8EncodeChar c, byte.toNat < 0x80 := by
  have htail : ∀ number, ¬(tail number).toNat < 0x80 := by
    intro number
    rw [toNat_tail]
    omega
  rw [← String.length_utf8EncodeChar]
  rcases utf8EncodeChar_cases c with ⟨hhigh, hbytes⟩ | ⟨-, -, hbytes⟩ | ⟨-, -, hbytes⟩ |
    ⟨-, hbytes⟩
  · have hbyte : (UInt8.ofNat c.toNat).toNat < 0x80 := by
      rw [UInt8.toNat_ofNat']
      omega
    simp only [hbytes, List.length_singleton, List.mem_singleton, forall_eq, hbyte]
  · simp [hbytes, htail]
  · simp [hbytes, htail]
  · simp [hbytes, htail]

theorem length_le_length_encode (text : List Char) : text.length ≤ (encode text).length := by
  induction text with
  | nil => exact Nat.le_refl _
  | cons c rest ih =>
      have hpos := c.utf8Size_pos
      rw [encode_cons, List.length_append, String.length_utf8EncodeChar, List.length_cons]
      omega

theorem length_encode_eq_iff (text : List Char) :
    (encode text).length = text.length ↔ ∀ byte ∈ encode text, byte.toNat < 0x80 := by
  induction text with
  | nil => simp
  | cons c rest ih =>
      have hpos := c.utf8Size_pos
      have hle := length_le_length_encode rest
      have hlength : (encode (c :: rest)).length = (c :: rest).length ↔
          c.utf8Size = 1 ∧ (encode rest).length = rest.length := by
        rw [encode_cons, List.length_append, String.length_utf8EncodeChar, List.length_cons]
        omega
      rw [hlength, ih, utf8Size_eq_one_iff_bytes, encode_cons, List.forall_mem_append]

end Utf8

/-! ## The mark -/

/-- **The mark counts symbols.**  It stands as many columns behind the gutter as there are
symbols before the position on its line.

On a line of tokens, where what is shown takes at least two columns for a token before the
position, that is the column of the token at the position only if the token is the first of
its line; and it is just past the row of a line that ends at the position only if the line is
empty, or holds a single token of one digit.

On a line of a text that is read by bytes, at the border of a character, it is the column of
the character, or just past the row, only if there are no bytes before it but ASCII. -/
theorem mark_counts_symbols (tokens : List UInt32) (position : Nat) (first second : String) :
    (let location := Location.ofPosition tokens position
      let line := lineAt tokens location.line
      markColumn location = (arrow location.line).length + location.offset ∧
        (arrowRow tokens location.line).toList = (arrow location.line).toList ++
          (Token.shownBefore line location.offset ++ Token.shownFrom line location.offset) ∧
        (markColumn location =
            (arrow location.line).length + (Token.shownBefore line location.offset).length ↔
          location.offset = 0 ∨
            ∃ token, line = [token] ∧ location.offset = 1 ∧ token.toNat < 10)) ∧
      let bytes := (first ++ second).toUTF8.data.toList
      let location := Location.ofPosition bytes first.toUTF8.size
      let line := lineAt bytes location.line
      let shownBefore := (Symbol.render (line.take location.offset)).toList
      markColumn location = (arrow location.line).length + location.offset ∧
        (arrowRow bytes location.line).toList = (arrow location.line).toList ++
          (shownBefore ++ (Symbol.render (line.drop location.offset)).toList) ∧
        (markColumn location = (arrow location.line).length + shownBefore.length ↔
          ∀ byte ∈ line.take location.offset, byte.toNat < 0x80) := by
  constructor
  · -- tokens: the line is parted at the token that stands at the offset
    intro location line
    obtain ⟨left, right, hline, hoffset⟩ :
        ∃ left right, line = left ++ right ∧ location.offset = left.length :=
      exists_lineAt_eq tokens position
    have hcolumn : markColumn location = (arrow location.line).length + location.offset :=
      idxOf_marker location
    refine ⟨hcolumn, ?_, ?_⟩
    · rw [arrowRow, String.toList_append]
      exact congrArg _ (Token.toList_render_eq_shown line location.offset)
    · rw [hcolumn, Nat.add_left_cancel_iff, hline, hoffset]
      exact Token.length_shownBefore_eq_iff left right
  · -- bytes: the line is parted where a character ends, so both parts are read as texts
    intro bytes location line shownBefore
    obtain ⟨left, right, hline, hoffset⟩ :
        ∃ left right, line = Utf8.encode left ++ Utf8.encode right ∧
          location.offset = (Utf8.encode left).length :=
      Utf8.exists_lineAt_eq first second
    have hcolumn : markColumn location = (arrow location.line).length + location.offset :=
      idxOf_marker location
    have htake : line.take location.offset = Utf8.encode left := by
      rw [hline, hoffset, List.take_left]
    have hdrop : line.drop location.offset = Utf8.encode right := by
      rw [hline, hoffset, List.drop_left]
    have hbefore : shownBefore = left := by
      show (Symbol.render (line.take location.offset)).toList = left
      rw [htake, Utf8.toList_render_encode]
    refine ⟨hcolumn, ?_, ?_⟩
    · rw [hbefore, hdrop, Utf8.toList_render_encode, arrowRow, String.toList_append]
      show _ ++ (Symbol.render line).toList = _
      rw [hline, ← Utf8.encode_append, Utf8.toList_render_encode]
    · rw [hcolumn, Nat.add_left_cancel_iff, hbefore, htake, hoffset]
      exact Utf8.length_encode_eq_iff left

/-- Below the second of the tokens `10` and `20`, the mark is two columns too far to the left;
below a letter after one with an accent, it is one column too far to the right. -/
theorem mark_beside_symbol :
    rows ([10, 20] : List UInt32) 1 = ["  > 1 | 10 20", "         ^--- here"] ∧
      markColumn (Location.ofPosition ([10, 20] : List UInt32) 1) = 9 ∧
      (arrow 1).length + (Token.shownBefore [10, 20] 1).length = 11 ∧
      rows "\u00E9x".toUTF8.data.toList 2 = ["  > 1 | \u00E9x", "          ^--- here"] ∧
      markColumn (Location.ofPosition "\u00E9x".toUTF8.data.toList 2) = 10 ∧
      (arrow 1).length + "\u00E9".length = 9 := by
  decide

end ParseOutcome
