import ParseOutcome.Proofs.Text.Reader
import ParseOutcome.Proofs.Text.Tokens

/-!
# Two runs shown in a row

What is shown for two runs of symbols, one behind the other, is what is shown for the first and
then what is shown for the second.  Between tokens there is a space, so one more is shown where
both runs have tokens.  Bytes may be cut anywhere but before a continuation byte, even behind
bytes that are not UTF-8 or within a character that has begun: the next byte closes what has
begun, as the end of the bytes does.
-/

namespace ParseOutcome

theorem Utf8.render_append (bytes : List UInt8) {bytes' : List UInt8}
    (hfirst : ∀ byte ∈ bytes'.head?, ¬IsContinuation byte) :
    Symbol.render (bytes ++ bytes') = Symbol.render bytes ++ Symbol.render bytes' := by
  have hstate : ∀ pending ∈ (none : Option Pending), pending.IsProper := by simp
  calc Symbol.render (bytes ++ bytes')
      = String.ofList (decode bytes ++ decode bytes') := by
        exact congrArg String.ofList (decodeFrom_append hstate bytes hfirst)
    _ = Symbol.render bytes ++ Symbol.render bytes' := String.ofList_append

theorem Token.render_append (tokens tokens' : List UInt32) :
    Symbol.render (tokens ++ tokens') =
      Symbol.render tokens ++ (if tokens ≠ [] ∧ tokens' ≠ [] then " " else "") ++
        Symbol.render tokens' := by
  show " ".intercalate _ = " ".intercalate _ ++ _ ++ " ".intercalate _
  rw [List.map_append]
  by_cases htokens : tokens = []
  · simp [htokens]
  · by_cases htokens' : tokens' = []
    · simp [htokens']
    · rw [if_pos ⟨htokens, htokens'⟩]
      apply String.intercalate_append_of_ne_nil
      · simpa using htokens
      · simpa using htokens'

namespace Symbol

/-- **Two runs in a row** are shown one behind the other: characters at once, tokens with a
space between them where there are tokens on both sides, and bytes at once if the second run
does not begin with a continuation byte. -/
theorem render_append_by_kind :
    (∀ text text' : List Char, render (text ++ text') = render text ++ render text') ∧
      (∀ tokens tokens' : List UInt32,
        render (tokens ++ tokens') =
          render tokens ++ (if tokens ≠ [] ∧ tokens' ≠ [] then " " else "") ++ render tokens') ∧
      ∀ bytes bytes' : List UInt8, (∀ byte ∈ bytes'.head?, ¬Utf8.IsContinuation byte) →
        render (bytes ++ bytes') = render bytes ++ render bytes' := by
  refine ⟨?_, Token.render_append, ?_⟩
  · intro text text'
    exact String.ofList_append
  · intro bytes bytes' hfirst
    exact Utf8.render_append bytes hfirst

/-- The first two bytes of a character of three, and then another character: the first part is
replaced whether it is shown alone or not. -/
theorem render_append_behind_brokenOff :
    (∀ byte ∈ ([0xC3, 0xA9] : List UInt8).head?, ¬Utf8.IsContinuation byte) ∧
      render ([0x68, 0xE2, 0x82] ++ [0xC3, 0xA9] : List UInt8) = "h\uFFFD" ++ "é" := by
  have hfirst : ∀ byte ∈ ([0xC3, 0xA9] : List UInt8).head?, ¬Utf8.IsContinuation byte := by
    intro byte hbyte
    obtain rfl := Option.some.inj hbyte
    unfold Utf8.IsContinuation
    decide
  exact ⟨hfirst, (render_append_by_kind.2.2 _ _ hfirst).trans (by decide)⟩

/-- A cut before a continuation byte may part a character. -/
example : render ([0xC3] ++ [0xA9] : List UInt8) ≠
    render [(0xC3 : UInt8)] ++ render [(0xA9 : UInt8)] := by
  decide

end Symbol

end ParseOutcome
