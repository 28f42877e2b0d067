import ParseOutcome.Symbol

/-!
# How tokens are shown

A run of tokens is shown by their numbers, parted by single spaces.  So what is shown for a
run is cut at any of its tokens: before it stand the earlier tokens, each with a space after
it, and behind it the later ones, each with a space before it.  And the text is read back by
splitting it at its spaces, since no number has a space in it.
-/

namespace ParseOutcome.Token

/-- The decimal digits of a token. -/
def digits (token : UInt32) : List Char :=
  token.toNat.repr.toList

/-- Some tokens, each with a space after it. -/
def before (tokens : List UInt32) : List Char :=
  tokens.flatMap fun token => digits token ++ [' ']

/-- Some tokens, each with a space before it. -/
def behind (tokens : List UInt32) : List Char :=
  tokens.flatMap fun token => ' ' :: digits token

variable {token : UInt32} {tokens : List UInt32}

theorem isDigit_of_mem_digits {c : Char} (hc : c ∈ digits token) : c.isDigit = true := by
  rw [digits, Nat.toList_repr] at hc
  exact Nat.isDigit_of_mem_toDigits (by omega) (Nat.le_refl 10) hc

theorem digits_ne_nil (token : UInt32) : digits token ≠ [] := by
  rw [digits, Nat.toList_repr]
  exact Nat.toDigits_ne_nil

theorem toList_render (tokens : List UInt32) :
    (Symbol.render tokens).toList = [' '].intercalate (tokens.map digits) := by
  show (" ".intercalate (tokens.map fun token => token.toNat.repr)).toList = _
  rw [String.toList_intercalate, List.map_map]
  rfl

theorem toList_render_cons (token : UInt32) (tokens : List UInt32) :
    (Symbol.render (token :: tokens)).toList = digits token ++ behind tokens := by
  induction tokens generalizing token with
  | nil => simp [toList_render, behind]
  | cons next rest ih =>
      have hrest := ih next
      rw [toList_render] at hrest ⊢
      rw [List.map_cons] at hrest ⊢
      rw [List.map_cons, List.intercalate_cons_cons, hrest]
      simp [behind]

/-- What is shown for a run of tokens, cut at one of them. -/
theorem toList_render_append_cons (left : List UInt32) (token : UInt32) (right : List UInt32) :
    (Symbol.render (left ++ token :: right)).toList =
      before left ++ digits token ++ behind right := by
  induction left with
  | nil => exact toList_render_cons token right
  | cons first rest ih =>
      obtain ⟨next, others, hnext⟩ : ∃ next others, rest ++ token :: right = next :: others := by
        exact List.exists_cons_of_ne_nil (by simp)
      have hrest : digits next ++ behind others = before rest ++ digits token ++ behind right := by
        rw [← ih, hnext, toList_render_cons]
      calc (Symbol.render (first :: rest ++ token :: right)).toList
          = digits first ++ behind (next :: others) := by
            rw [List.cons_append, hnext, toList_render_cons]
        _ = digits first ++ [' '] ++ (digits next ++ behind others) := by simp [behind]
        _ = before (first :: rest) ++ digits token ++ behind right := by
            rw [hrest]
            simp [before]

/-- Nothing is shown for tokens but digits and spaces. -/
theorem isDigit_or_eq_of_mem_render {c : Char} (hc : c ∈ (Symbol.render tokens).toList) :
    c.isDigit = true ∨ c = ' ' := by
  cases tokens with
  | nil => exact absurd hc List.not_mem_nil
  | cons token rest =>
      rw [toList_render_cons, List.mem_append, behind, List.mem_flatMap] at hc
      rcases hc with hc | ⟨other, -, hc⟩
      · exact .inl (isDigit_of_mem_digits hc)
      · rcases List.mem_cons.mp hc with rfl | hc
        · exact .inr rfl
        · exact .inl (isDigit_of_mem_digits hc)

/-! ## Reading back -/

/-- The digits of a token, read as a decimal number, give back the token. -/
theorem ofDigitChars_digits (token : UInt32) :
    Nat.ofDigitChars 10 (digits token) 0 = token.toNat := by
  rw [digits, Nat.toList_repr]
  exact Nat.ofDigitChars_toDigits (by decide) (Nat.le_refl 10)

theorem digits_injective : Function.Injective digits := by
  intro first second hdigits
  apply UInt32.toNat_inj.mp
  rw [← ofDigitChars_digits first, hdigits, ofDigitChars_digits]

theorem space_notMem_digits (token : UInt32) : ' ' ∉ digits token := by
  intro hspace
  exact absurd (isDigit_of_mem_digits hspace) (by decide)

/-- The text of some tokens, split at its spaces, has the digits of each token. -/
theorem splitOn_render {tokens : List UInt32} (htokens : tokens ≠ []) :
    (Symbol.render tokens).toList.splitOn ' ' = tokens.map digits := by
  rw [toList_render]
  refine List.splitOn_intercalate _ ?_ (by simpa using htokens)
  intro piece hpiece
  obtain ⟨token, -, rfl⟩ := List.mem_map.mp hpiece
  exact space_notMem_digits token

end ParseOutcome.Token
