import Mathlib.Tactic.SplitIfs
import ParseOutcome.Proofs.Text.Reader
import ParseOutcome.Symbol

/-!
# Reading what has been encoded

A text that is encoded and read again is the same text.  If its bytes are cut within a
character, what is left of the character at the end of the first part is one malformed part,
and every byte that is left of it at the beginning of the second is one.

To read a character of several bytes is to begin a sequence, to go on with it, and to show
the character with the last byte and nothing before (`Completes`).  That the bytes of every
character are such a run is arithmetic, in one case for each number of bytes
(`completes_utf8EncodeChar`).  What a text is read as, whole or cut, is then put together from
its characters.
-/

namespace ParseOutcome.Utf8

/-- The bytes of a text. -/
def encode (text : List Char) : List UInt8 :=
  text.flatMap String.utf8EncodeChar

theorem toList_toUTF8 (s : String) : s.toUTF8.data.toList = encode s.toList := by
  calc s.toUTF8.data.toList
      = (String.ofList s.toList).toByteArray.data.toList := by
        rw [String.ofList_toList]
        rfl
    _ = encode s.toList := by
        rw [String.toByteArray_ofList]
        exact List.toList_data_toByteArray

/-! ## Reading one character -/

/-- Whether the reader shows a character with the last of some bytes, and nothing before. -/
inductive Completes : Option Pending → List UInt8 → Char → Prop
  | last {state : Option Pending} {byte : UInt8} {c : Char}
      (hshown : feed state byte = ([c], none)) : Completes state [byte] c
  | more {state : Option Pending} {byte : UInt8} {pending : Pending} {rest : List UInt8}
      {c : Char} (hopen : feed state byte = ([], some pending))
      (hrest : Completes (some pending) rest c) : Completes state (byte :: rest) c

namespace Completes

variable {state : Option Pending} {bytes : List UInt8} {c : Char}

theorem decodeFrom_append (hread : Completes state bytes c) (rest : List UInt8) :
    decodeFrom state (bytes ++ rest) = c :: decode rest := by
  induction hread with
  | last hshown =>
      rw [List.cons_append, List.nil_append, decodeFrom, hshown]
      rfl
  | more hopen _ ih =>
      rw [List.cons_append, decodeFrom, hopen]
      exact ih

/-- A character that is broken off is shown as one malformed part. -/
theorem decodeFrom_take (hread : Completes state bytes c) {count : Nat} (hpos : 0 < count)
    (hlt : count < bytes.length) : decodeFrom state (bytes.take count) = [replacement] := by
  induction hread generalizing count with
  | last hshown =>
      -- a single byte cannot be cut
      rw [List.length_singleton] at hlt
      omega
  | more hopen hrest ih =>
      obtain ⟨before, rfl⟩ : ∃ before, count = before + 1 := ⟨count - 1, by omega⟩
      rw [List.take_succ_cons, decodeFrom, hopen, List.nil_append]
      rw [List.length_cons] at hlt
      cases before with
      | zero => rfl
      | succ before => exact ih (Nat.succ_pos _) (by omega)

end Completes

/-! ## The bytes of a character -/

variable {byte : UInt8} {bits : Nat}

theorem feed_of_accepts_last {pending : Pending} (haccepts : pending.accepts byte = true)
    (hmissing : pending.missing = 1) :
    feed (some pending) byte = ([Char.ofNat (pending.bitsWith byte)], none) := by
  rw [feed, if_pos haccepts, if_pos (by omega)]

theorem feed_of_accepts_more {pending : Pending} {missing : Nat}
    (haccepts : pending.accepts byte = true) (hmissing : pending.missing = missing + 2) :
    feed (some pending) byte =
      ([], some ⟨missing + 1, 0x80, 0xBF, pending.bitsWith byte⟩) := by
  rw [feed, if_pos haccepts, if_neg (by omega), hmissing]
  rfl

theorem accepts_of_isContinuation (hbyte : IsContinuation byte) (missing bits : Nat) :
    (⟨missing, 0x80, 0xBF, bits⟩ : Pending).accepts byte = true :=
  Pending.accepts_iff.mpr hbyte

/-- The continuation byte that holds the last six bits of a number. -/
def tail (number : Nat) : UInt8 :=
  UInt8.ofNat (number % 64 + 128)

theorem toNat_tail (number : Nat) : (tail number).toNat = number % 64 + 128 := by
  rw [tail, UInt8.toNat_ofNat']
  omega

theorem isContinuation_tail (number : Nat) : IsContinuation (tail number) := by
  rw [IsContinuation, toNat_tail]
  omega

theorem bitsWith_tail (pending : Pending) (number : Nat) :
    pending.bitsWith (tail number) = pending.bits * 64 + number % 64 := by
  rw [Pending.bitsWith, toNat_tail]
  omega

theorem readLead_of_ge (hbyte : 0x80 ≤ byte.toNat) {pending : Pending}
    (hlead : Pending.ofLead? byte = some pending) : readLead byte = ([], some pending) := by
  rw [readLead, if_neg, hlead]
  rw [UInt8.lt_iff_toNat_lt]
  exact Nat.not_lt_of_le hbyte

theorem ofLead?_two (byte : UInt8) (hlow : 0xC2 ≤ byte.toNat) (hhigh : byte.toNat ≤ 0xDF) :
    Pending.ofLead? byte = some ⟨1, 0x80, 0xBF, byte.toNat % 32⟩ := by
  rw [Pending.ofLead?, if_pos]
  exact ⟨UInt8.le_iff_toNat_le.mpr hlow, UInt8.le_iff_toNat_le.mpr hhigh⟩

/-- The first two of three bytes. -/
theorem exists_ofLead?_three (byte : UInt8) (hlow : 0xE0 ≤ byte.toNat) (hhigh : byte.toNat ≤ 0xEF)
    {second : UInt8} (hsecond : IsContinuation second)
    (hoverlong : byte.toNat = 0xE0 → 0xA0 ≤ second.toNat)
    (hsurrogate : byte.toNat = 0xED → second.toNat ≤ 0x9F) :
    ∃ pending, Pending.ofLead? byte = some pending ∧ pending.missing = 2 ∧
      pending.bits = byte.toNat % 16 ∧ pending.accepts second = true := by
  unfold IsContinuation at hsecond
  simp only [Pending.ofLead?, Pending.accepts_iff, UInt8.le_iff_toNat_le, ← UInt8.toNat_inj,
    UInt8.reduceToNat]
  -- `E0` and `ED` narrow the range of the second byte, the others leave it as it is
  split_ifs
  all_goals first
    | (exfalso; omega)
    | (refine ⟨_, rfl, rfl, ?_, ?_, ?_⟩ <;> simp <;> omega)

/-- The first two of four bytes. -/
theorem exists_ofLead?_four (byte : UInt8) (hlow : 0xF0 ≤ byte.toNat) (hhigh : byte.toNat ≤ 0xF4)
    {second : UInt8} (hsecond : IsContinuation second)
    (hoverlong : byte.toNat = 0xF0 → 0x90 ≤ second.toNat)
    (hbeyond : byte.toNat = 0xF4 → second.toNat ≤ 0x8F) :
    ∃ pending, Pending.ofLead? byte = some pending ∧ pending.missing = 3 ∧
      pending.bits = byte.toNat % 8 ∧ pending.accepts second = true := by
  unfold IsContinuation at hsecond
  simp only [Pending.ofLead?, Pending.accepts_iff, UInt8.le_iff_toNat_le, ← UInt8.toNat_inj,
    UInt8.reduceToNat]
  -- `F0` and `F4` narrow the range of the second byte, the others leave it as it is
  split_ifs
  all_goals first
    | (exfalso; omega)
    | (refine ⟨_, rfl, rfl, ?_, ?_, ?_⟩ <;> simp <;> omega)

/-- A character of one byte, or of a first byte and continuation bytes. -/
theorem utf8EncodeChar_cases (c : Char) :
    (c.toNat ≤ 0x7F ∧ String.utf8EncodeChar c = [UInt8.ofNat c.toNat]) ∨
      (0x7F < c.toNat ∧ c.toNat ≤ 0x7FF ∧ String.utf8EncodeChar c =
        [UInt8.ofNat (c.toNat / 64 + 0xC0), tail c.toNat]) ∨
      (0x7FF < c.toNat ∧ c.toNat ≤ 0xFFFF ∧ String.utf8EncodeChar c =
        [UInt8.ofNat (c.toNat / 4096 + 0xE0), tail (c.toNat / 64), tail c.toNat]) ∨
      (0xFFFF < c.toNat ∧ String.utf8EncodeChar c =
        [UInt8.ofNat (c.toNat / 262144 + 0xF0), tail (c.toNat / 4096), tail (c.toNat / 64),
          tail c.toNat]) := by
  have hlt : c.toNat < 0x110000 := by
    have hvalid : c.toNat < 0xD800 ∨ 0xDFFF < c.toNat ∧ c.toNat < 0x110000 := c.valid
    omega
  simp only [String.utf8EncodeChar, show c.val.toNat = c.toNat from rfl]
  -- the first byte is masked to the bits it has room for, and the number has no more than these
  split_ifs with hone htwo hthree
  · exact .inl ⟨hone, rfl⟩
  · have hfirst : c.toNat / 64 % 32 = c.toNat / 64 := by omega
    rw [hfirst]
    exact .inr (.inl ⟨by omega, htwo, rfl⟩)
  · have hfirst : c.toNat / 4096 % 16 = c.toNat / 4096 := by omega
    rw [hfirst]
    exact .inr (.inr (.inl ⟨by omega, hthree, rfl⟩))
  · have hfirst : c.toNat / 262144 % 8 = c.toNat / 262144 := by omega
    rw [hfirst]
    exact .inr (.inr (.inr ⟨by omega, rfl⟩))

/-- The bytes of a character are read as the character. -/
theorem completes_utf8EncodeChar (c : Char) :
    Completes none (String.utf8EncodeChar c) c := by
  have hvalid : c.toNat < 0xD800 ∨ 0xDFFF < c.toNat ∧ c.toNat < 0x110000 := c.valid
  -- one case for each number of bytes: that each byte is accepted, and that the bits of all of them
  -- make the number of the character
  rcases utf8EncodeChar_cases c with ⟨hhigh, hbytes⟩ | ⟨hlow, hhigh, hbytes⟩ |
    ⟨hlow, hhigh, hbytes⟩ | ⟨hlow, hbytes⟩
  · -- a single byte is shown at once
    have hbyte : (UInt8.ofNat c.toNat).toNat = c.toNat := by
      rw [UInt8.toNat_ofNat']
      omega
    rw [hbytes]
    refine .last ?_
    rw [feed, readLead, if_pos, hbyte, Char.ofNat_toNat]
    rw [UInt8.lt_iff_toNat_lt, hbyte]
    exact Nat.lt_succ_of_le hhigh
  · -- two bytes: the number is above `7F`, so the first is at least `C2`
    have hfirst : (UInt8.ofNat (c.toNat / 64 + 0xC0)).toNat = c.toNat / 64 + 0xC0 := by
      rw [UInt8.toNat_ofNat']
      omega
    have hlead := ofLead?_two (UInt8.ofNat (c.toNat / 64 + 0xC0)) (by omega) (by omega)
    rw [hbytes]
    refine .more (readLead_of_ge (by omega) hlead) (.last ?_)
    rw [feed_of_accepts_last (accepts_of_isContinuation (isContinuation_tail _) _ _) rfl,
      bitsWith_tail]
    have hcode : (c.toNat / 64 + 0xC0) % 32 * 64 + c.toNat % 64 = c.toNat := by omega
    rw [hfirst, hcode, Char.ofNat_toNat]
  · -- three bytes: behind `E0` the second is not too small, as the number is above `7FF`, and
    -- behind `ED` it is not too great, as the number is no surrogate
    have hfirst : (UInt8.ofNat (c.toNat / 4096 + 0xE0)).toNat = c.toNat / 4096 + 0xE0 := by
      rw [UInt8.toNat_ofNat']
      omega
    have hsecond := toNat_tail (c.toNat / 64)
    obtain ⟨pending, hlead, hmissing, hbits, haccepts⟩ :=
      exists_ofLead?_three (UInt8.ofNat (c.toNat / 4096 + 0xE0)) (by omega) (by omega)
        (isContinuation_tail (c.toNat / 64)) (by omega) (by omega)
    rw [hbytes]
    refine .more (readLead_of_ge (by omega) hlead)
      (.more (feed_of_accepts_more haccepts hmissing) (.last ?_))
    rw [feed_of_accepts_last (accepts_of_isContinuation (isContinuation_tail _) _ _) rfl,
      bitsWith_tail, bitsWith_tail, hbits, hfirst]
    have hcode : ((c.toNat / 4096 + 0xE0) % 16 * 64 + c.toNat / 64 % 64) * 64 + c.toNat % 64 =
      c.toNat := by omega
    rw [hcode, Char.ofNat_toNat]
  · -- four bytes: behind `F0` the second is not too small, as the number is above `FFFF`, and
    -- behind `F4` it is not too great, as the number is at most `10FFFF`
    have hfirst : (UInt8.ofNat (c.toNat / 262144 + 0xF0)).toNat = c.toNat / 262144 + 0xF0 := by
      rw [UInt8.toNat_ofNat']
      omega
    have hsecond := toNat_tail (c.toNat / 4096)
    obtain ⟨pending, hlead, hmissing, hbits, haccepts⟩ :=
      exists_ofLead?_four (UInt8.ofNat (c.toNat / 262144 + 0xF0)) (by omega) (by omega)
        (isContinuation_tail (c.toNat / 4096)) (by omega) (by omega)
    have hthird := accepts_of_isContinuation (isContinuation_tail (c.toNat / 64))
    rw [hbytes]
    refine .more (readLead_of_ge (by omega) hlead)
      (.more (feed_of_accepts_more haccepts hmissing)
        (.more (feed_of_accepts_more (hthird _ _) rfl) (.last ?_)))
    rw [feed_of_accepts_last (accepts_of_isContinuation (isContinuation_tail _) _ _) rfl,
      bitsWith_tail, bitsWith_tail, bitsWith_tail, hbits, hfirst]
    have hcode : (((c.toNat / 262144 + 0xF0) % 8 * 64 + c.toNat / 4096 % 64) * 64 +
      c.toNat / 64 % 64) * 64 + c.toNat % 64 = c.toNat := by omega
    rw [hcode, Char.ofNat_toNat]

theorem isContinuation_of_mem_tail {c : Char}
    (hbyte : byte ∈ (String.utf8EncodeChar c).tail) : IsContinuation byte := by
  have htails : ∃ numbers : List Nat, (String.utf8EncodeChar c).tail = numbers.map tail := by
    rcases utf8EncodeChar_cases c with ⟨-, hbytes⟩ | ⟨-, -, hbytes⟩ | ⟨-, -, hbytes⟩ | ⟨-, hbytes⟩
    · exact ⟨[], by rw [hbytes]; rfl⟩
    · exact ⟨[_], by rw [hbytes]; rfl⟩
    · exact ⟨[_, _], by rw [hbytes]; rfl⟩
    · exact ⟨[_, _, _], by rw [hbytes]; rfl⟩
  obtain ⟨numbers, hnumbers⟩ := htails
  rw [hnumbers] at hbyte
  obtain ⟨number, -, rfl⟩ := List.mem_map.mp hbyte
  exact isContinuation_tail number

/-! ## Whole texts, and characters that are cut -/

@[simp] theorem encode_nil : encode [] = [] := rfl

@[simp] theorem encode_cons (c : Char) (text : List Char) :
    encode (c :: text) = String.utf8EncodeChar c ++ encode text := rfl

@[simp] theorem encode_append (text text' : List Char) :
    encode (text ++ text') = encode text ++ encode text' := List.flatMap_append

theorem decode_utf8EncodeChar_append (c : Char) (rest : List UInt8) :
    decode (String.utf8EncodeChar c ++ rest) = c :: decode rest :=
  (completes_utf8EncodeChar c).decodeFrom_append rest

theorem decode_encode_append (text : List Char) (rest : List UInt8) :
    decode (encode text ++ rest) = text ++ decode rest := by
  induction text with
  | nil => rfl
  | cons c others ih =>
      rw [encode_cons, List.append_assoc, decode_utf8EncodeChar_append, ih, List.cons_append]

theorem decode_encode (text : List Char) : decode (encode text) = text := by
  have happend := decode_encode_append text []
  rwa [List.append_nil, show decode [] = [] from rfl, List.append_nil] at happend

/-- A text is shown as it is. -/
theorem toList_render_encode (text : List Char) : (Symbol.render (encode text)).toList = text := by
  show (String.ofList (decode (encode text))).toList = text
  rw [String.toList_ofList, decode_encode]

theorem decode_take_utf8EncodeChar {c : Char} {count : Nat} (hpos : 0 < count)
    (hlt : count < c.utf8Size) :
    decode ((String.utf8EncodeChar c).take count) = [replacement] := by
  rw [← String.length_utf8EncodeChar] at hlt
  exact (completes_utf8EncodeChar c).decodeFrom_take hpos hlt

theorem decode_drop_utf8EncodeChar_append {c : Char} {count : Nat} (hpos : 0 < count)
    (rest : List UInt8) :
    decode ((String.utf8EncodeChar c).drop count ++ rest) =
      List.replicate (c.utf8Size - count) replacement ++ decode rest := by
  -- what is left behind the first byte continues nothing
  have horphans : ∀ byte ∈ (String.utf8EncodeChar c).drop count, IsContinuation byte := by
    intro byte hbyte
    obtain ⟨before, rfl⟩ : ∃ before, count = before + 1 := ⟨count - 1, by omega⟩
    rw [Nat.add_comm, ← List.drop_drop, List.drop_one] at hbyte
    exact isContinuation_of_mem_tail (List.mem_of_mem_drop hbyte)
  rw [decode_append_of_isContinuation horphans, List.length_drop, String.length_utf8EncodeChar]

end ParseOutcome.Utf8
