import Mathlib.Order.MinMax
import ParseOutcome.Source.Basic

/-!
# Arithmetic on words

A machine counts in words of 64 bits.  A sum that does not fit, a difference below zero, and
a range that does not lie within its list, have no result: the machine stops.  Where a
program asks for it, a sum or a difference is capped instead, at the greatest word or at
zero.

Every word is read as a number.  A checked operation has a result exactly if there is a word
for the number it should come to (`add_eq_ok_iff`, `sub_eq_ok_iff`), and nothing else is used
of it later on.
-/

namespace ParseOutcome

/-- Why a machine stops. -/
inductive Panic where
  | overflow
  | underflow
  | outOfRange
deriving DecidableEq

namespace Word

variable {α : Type}

/-- The sum of two words, if it is one. -/
def add (first second : UInt64) : Except Panic UInt64 :=
  if first.toNat + second.toNat < UInt64.size then .ok (first + second) else .error .overflow

/-- The difference of two words, if it is one. -/
def sub (first second : UInt64) : Except Panic UInt64 :=
  if second ≤ first then .ok (first - second) else .error .underflow

/-- The greatest word. -/
def greatest : UInt64 := 0xFFFFFFFFFFFFFFFF

/-- The sum of two words, or else the greatest word. -/
def addCapped (first second : UInt64) : UInt64 :=
  if first.toNat + second.toNat < UInt64.size then first + second else greatest

/-- The difference of two words, or else zero. -/
def subCapped (first second : UInt64) : UInt64 :=
  if second ≤ first then first - second else 0

/-- The number of symbols as a machine has it. -/
def size (symbols : List α) : UInt64 :=
  .ofNat symbols.length

/-- The symbols from one index up to another, which must not come before the first and must
lie within the list. -/
def range (symbols : List α) (start stop : UInt64) : Except Panic (List α) :=
  if start ≤ stop ∧ stop ≤ size symbols then
    .ok ((symbols.take stop.toNat).drop start.toNat)
  else .error .outOfRange

/-! ## What the operations come to -/

variable {first second start stop : UInt64} {symbols : List α}

theorem toNat_add_of_lt (hlt : first.toNat + second.toNat < UInt64.size) :
    (first + second).toNat = first.toNat + second.toNat := by
  rw [UInt64.toNat_add]
  exact Nat.mod_eq_of_lt hlt

/-- A sum has a result exactly if there is a word for it. -/
theorem add_eq_ok_iff {sum : UInt64} :
    add first second = .ok sum ↔ sum.toNat = first.toNat + second.toNat := by
  have hsum := sum.toNat_lt_size
  unfold add
  by_cases hlt : first.toNat + second.toNat < UInt64.size
  · rw [if_pos hlt, Except.ok.injEq, ← UInt64.toNat_inj, toNat_add_of_lt hlt, eq_comm]
  · rw [if_neg hlt]
    constructor
    · intro hadd
      cases hadd
    · intro heq
      omega

example : add greatest 1 = .error .overflow := by decide

/-- A difference has a result exactly if there is a word for it. -/
theorem sub_eq_ok_iff {difference : UInt64} :
    sub first second = .ok difference ↔
      difference.toNat + second.toNat = first.toNat := by
  unfold sub
  by_cases hle : second ≤ first
  · have hleNat := UInt64.le_iff_toNat_le.mp hle
    rw [if_pos hle, Except.ok.injEq, ← UInt64.toNat_inj, UInt64.toNat_sub_of_le first second hle]
    omega
  · have hltNat := UInt64.lt_iff_toNat_lt.mp (UInt64.not_le.mp hle)
    rw [if_neg hle]
    constructor
    · intro hsub
      cases hsub
    · intro heq
      omega

theorem exists_add_eq_ok (hlt : first.toNat + second.toNat < UInt64.size) :
    ∃ sum, add first second = .ok sum ∧ sum.toNat = first.toNat + second.toNat := by
  have hsum := UInt64.toNat_ofNat_of_lt' hlt
  exact ⟨_, add_eq_ok_iff.mpr hsum, hsum⟩

theorem exists_sub_eq_ok (hle : second.toNat ≤ first.toNat) :
    ∃ difference, sub first second = .ok difference ∧
      difference.toNat + second.toNat = first.toNat := by
  have hlt : first.toNat - second.toNat < UInt64.size :=
    Nat.lt_of_le_of_lt (Nat.sub_le _ _) first.toNat_lt_size
  have hdifference : (UInt64.ofNat (first.toNat - second.toNat)).toNat + second.toNat =
      first.toNat := by
    rw [UInt64.toNat_ofNat_of_lt' hlt]
    omega
  exact ⟨_, sub_eq_ok_iff.mpr hdifference, hdifference⟩

/-- What is capped comes to the same number under any bound that a word can hold. -/
theorem min_toNat_addCapped {bound : Nat} (hbound : bound < UInt64.size) :
    min (addCapped first second).toNat bound = min (first.toNat + second.toNat) bound := by
  unfold addCapped
  by_cases hlt : first.toNat + second.toNat < UInt64.size
  · rw [if_pos hlt, toNat_add_of_lt hlt]
  · have hgreatest : greatest.toNat + 1 = UInt64.size := rfl
    rw [if_neg hlt, Nat.min_eq_right (by omega), Nat.min_eq_right (by omega)]

theorem toNat_subCapped (first second : UInt64) :
    (subCapped first second).toNat = first.toNat - second.toNat := by
  unfold subCapped
  by_cases hle : second ≤ first
  · rw [if_pos hle, UInt64.toNat_sub_of_le first second hle]
  · have hlt : first.toNat < second.toNat := UInt64.lt_iff_toNat_lt.mp (UInt64.not_le.mp hle)
    rw [if_neg hle, Nat.sub_eq_zero_of_le (Nat.le_of_lt hlt)]
    rfl

theorem toNat_size (hsymbols : symbols.length < UInt64.size) :
    (size symbols).toNat = symbols.length :=
  UInt64.toNat_ofNat_of_lt' hsymbols

/-- To cut a word off at the number of symbols is to cut off its number. -/
theorem toNat_min_size (hsymbols : symbols.length < UInt64.size) (position : UInt64) :
    (min position (size symbols)).toNat = min position.toNat symbols.length := by
  rw [UInt64.toNat_min, toNat_size hsymbols]

theorem range_eq_ok (hsymbols : symbols.length < UInt64.size)
    (horder : start.toNat ≤ stop.toNat) (hwithin : stop.toNat ≤ symbols.length) :
    range symbols start stop = .ok ((symbols.take stop.toNat).drop start.toNat) := by
  have hsize := toNat_size hsymbols
  refine if_pos ⟨UInt64.le_iff_toNat_le.mpr horder, UInt64.le_iff_toNat_le.mpr ?_⟩
  omega

/-! ## Going on from a result -/

theorem ok_bind {ε β γ : Type} (result : β) (next : β → Except ε γ) :
    (Except.ok result >>= next) = next result := rfl

end Word

end ParseOutcome
