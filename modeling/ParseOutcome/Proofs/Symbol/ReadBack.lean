import Mathlib.Data.Set.Operations
import ParseOutcome.Proofs.Text.Encoding
import ParseOutcome.Proofs.Text.Tokens

/-!
# Reading back what is shown

A run of symbols can be read from what is shown for it.  Characters are shown as they are, and
the bytes of a text as the text.  Tokens are shown by decimal numbers without spaces in them, so
the pieces between the spaces are the numbers again; only the empty run is shown by the empty
text.  Hence no two runs of characters or of tokens are shown alike, and no two runs of bytes
that are UTF-8.  Other bytes may be, since one replacement character stands for many of them.
-/

namespace ParseOutcome

/-! ## Bytes -/

namespace Utf8

variable {bytes bytes' : List UInt8}

theorem exists_encode_eq (hvalid : bytes.toByteArray.IsValidUTF8) :
    ∃ text, encode text = bytes := by
  obtain ⟨text, htext⟩ := hvalid
  refine ⟨text, ?_⟩
  calc encode text
      = text.utf8Encode.data.toList := List.toList_data_toByteArray.symm
    _ = bytes.toByteArray.data.toList := by rw [htext]
    _ = bytes := List.toList_data_toByteArray

theorem encode_decode (hvalid : bytes.toByteArray.IsValidUTF8) :
    encode (decode bytes) = bytes := by
  obtain ⟨text, rfl⟩ := exists_encode_eq hvalid
  rw [decode_encode]

theorem render_toUTF8 (s : String) : Symbol.render s.toUTF8.data.toList = s := by
  apply String.toList_inj.mp
  rw [toList_toUTF8, toList_render_encode]

theorem eq_of_render_eq (hvalid : bytes.toByteArray.IsValidUTF8)
    (hvalid' : bytes'.toByteArray.IsValidUTF8)
    (hrender : Symbol.render bytes = Symbol.render bytes') : bytes = bytes' := by
  have hdecode : decode bytes = decode bytes' := String.ofList_injective hrender
  rw [← encode_decode hvalid, hdecode, encode_decode hvalid']

end Utf8

/-! ## Tokens -/

namespace Token

/-- The token whose decimal number a text is: digits and nothing else, at least one, and a
number that some token has. -/
def ofDecimal? (text : String) : Option UInt32 :=
  let number := Nat.ofDigitChars 10 text.toList 0
  if text.toList ≠ [] ∧ text.toList.all Char.isDigit ∧ number < UInt32.size then
    some (UInt32.ofNat number)
  else none

variable {tokens tokens' : List UInt32}

theorem ofDecimal?_repr (token : UInt32) : ofDecimal? token.toNat.repr = some token := by
  have hnumber : Nat.ofDigitChars 10 token.toNat.repr.toList 0 = token.toNat :=
    ofDigitChars_digits token
  have hdigits : token.toNat.repr.toList.all Char.isDigit = true :=
    List.all_eq_true.mpr fun c hc => isDigit_of_mem_digits hc
  simp only [ofDecimal?, hnumber]
  rw [if_pos ⟨digits_ne_nil token, hdigits, token.toNat_lt_size⟩, UInt32.ofNat_toNat]

/-- The text of some tokens, split at its spaces, has the number of each token. -/
theorem split_render (htokens : tokens ≠ []) :
    ((Symbol.render tokens).split ' ').toList.map String.Slice.copy =
      tokens.map fun token => token.toNat.repr := by
  rw [String.toList_split_char, splitOn_render htokens, List.map_map]
  refine List.map_congr_left fun token _ => ?_
  exact String.ofList_toList

theorem mapM_ofDecimal?_split_render (htokens : tokens ≠ []) :
    ((Symbol.render tokens).split ' ').toList.mapM (fun piece => ofDecimal? piece.copy) =
      some tokens := by
  have hread : ofDecimal? ∘ (fun token : UInt32 => token.toNat.repr) = pure := by
    funext token
    exact ofDecimal?_repr token
  have hpieces := congrArg (List.mapM ofDecimal?) (split_render htokens)
  rw [List.mapM_map, List.mapM_map, hread, List.mapM_pure, List.map_id'] at hpieces
  exact hpieces

theorem render_eq_empty_iff : Symbol.render tokens = "" ↔ tokens = [] := by
  constructor
  · intro hempty
    cases tokens with
    | nil => rfl
    | cons token rest =>
        have htext := toList_render_cons token rest
        rw [hempty] at htext
        exact absurd (List.append_eq_nil_iff.mp htext.symm).1 (digits_ne_nil token)
  · rintro rfl
    rfl

theorem render_injective : Function.Injective (Symbol.render : List UInt32 → String) := by
  intro tokens tokens' hrender
  -- The empty text has one piece between spaces, and that is no number.
  have hnil : tokens = [] ↔ tokens' = [] := by
    rw [← render_eq_empty_iff, hrender, render_eq_empty_iff]
  by_cases htokens : tokens = []
  · rw [htokens, hnil.mp htokens]
  · have htokens' : tokens' ≠ [] := mt hnil.mpr htokens
    apply Option.some.inj
    rw [← mapM_ofDecimal?_split_render htokens, hrender, mapM_ofDecimal?_split_render htokens']

end Token

namespace Symbol

/-- **What is shown can be read back**: the characters that are shown, the text whose bytes
are shown, and for some tokens their decimal numbers between the spaces.  So different runs of
characters, of tokens, or of bytes that are UTF-8 are shown differently. -/
theorem rendered_reads_back :
    (∀ text : List Char, (render text).toList = text) ∧
      (∀ s : String, render s.toUTF8.data.toList = s) ∧
      (∀ tokens : List UInt32, (render tokens = "" ↔ tokens = []) ∧
        (tokens ≠ [] → ((render tokens).split ' ').toList.mapM
          (fun piece => Token.ofDecimal? piece.copy) = some tokens)) ∧
      Function.Injective (render : List Char → String) ∧
      Function.Injective (render : List UInt32 → String) ∧
      Set.InjOn (render : List UInt8 → String) {bytes | bytes.toByteArray.IsValidUTF8} := by
  refine ⟨fun _ => String.toList_ofList, Utf8.render_toUTF8, ?_, ?_, Token.render_injective, ?_⟩
  · intro tokens
    exact ⟨Token.render_eq_empty_iff, Token.mapM_ofDecimal?_split_render⟩
  · intro text text' hrender
    exact String.ofList_injective hrender
  · intro bytes hvalid bytes' hvalid' hrender
    exact Utf8.eq_of_render_eq hvalid hvalid' hrender

/-- The least and the greatest token, and a letter with its accent as one character and as two. -/
theorem reads_back_extremes_and_accents :
    [0, 4294967295] ≠ ([] : List UInt32) ∧
      ((render ([0, 4294967295] : List UInt32)).split ' ').toList.mapM
        (fun piece => Token.ofDecimal? piece.copy) = some [0, 4294967295] ∧
      [0xC3, 0xA9].toByteArray.IsValidUTF8 ∧ [0x65, 0xCC, 0x81].toByteArray.IsValidUTF8 ∧
      render ([0xC3, 0xA9] : List UInt8) ≠ render ([0x65, 0xCC, 0x81] : List UInt8) := by
  obtain ⟨-, -, htokens, -, -, hbytes⟩ := rendered_reads_back
  have hsome : [0, 4294967295] ≠ ([] : List UInt32) := List.cons_ne_nil _ _
  have hone : [0xC3, 0xA9].toByteArray.IsValidUTF8 := ⟨['\u00E9'], rfl⟩
  have htwo : [0x65, 0xCC, 0x81].toByteArray.IsValidUTF8 := ⟨['e', '\u0301'], rfl⟩
  refine ⟨hsome, (htokens _).2 hsome, hone, htwo, ?_⟩
  intro hrender
  exact absurd (hbytes hone htwo hrender) (by decide)

/-- Bytes that are not UTF-8 may be shown alike. -/
example : render ([0x80] : List UInt8) = render ([0xFF] : List UInt8) := rfl

end Symbol

end ParseOutcome
