import Mathlib.Tactic.SplitIfs
import ParseOutcome.Text.Utf8

/-!
# The reader between bytes

The reader goes on with what it has begun only by bytes from `0x80` to `0xBF`, and these
begin nothing themselves.  Every other byte closes what has begun, as if the bytes ended
there, and is then read as if it were the first.  So the reader may be stopped before such a
byte and started again.  A character of several bytes is never one of the first 128.

Newlines are shown for newlines, and for nothing else: they are among the bytes that close what
has begun, and no character that the reader puts together from several bytes is one.
-/

namespace ParseOutcome.Utf8

/-- Whether a byte may only go on with a sequence that has begun. -/
def IsContinuation (byte : UInt8) : Prop :=
  0x80 ≤ byte.toNat ∧ byte.toNat ≤ 0xBF

/-- What holds of a sequence that has begun: only continuation bytes are accepted, and the
code point will be at least `0x80`, since the bits of all but its last byte come to 2. -/
structure Pending.IsProper (pending : Pending) : Prop where
  least_ge : 0x80 ≤ pending.least.toNat
  greatest_le : pending.greatest.toNat ≤ 0xBF
  two_le_bits : pending.missing ≤ 1 → 2 ≤ pending.bits
  two_le : 2 ≤ pending.bits * 64 + (pending.least.toNat - 0x80)

variable {byte : UInt8} {pending : Pending} {state : Option Pending}

namespace Pending

theorem accepts_iff :
    pending.accepts byte = true ↔
      pending.least.toNat ≤ byte.toNat ∧ byte.toNat ≤ pending.greatest.toNat := by
  rw [accepts, decide_eq_true_eq, UInt8.le_iff_toNat_le, UInt8.le_iff_toNat_le]

theorem isProper_of_ofLead? (hlead : ofLead? byte = some pending) : pending.IsProper := by
  simp only [ofLead?, UInt8.le_iff_toNat_le, UInt8.reduceToNat] at hlead
  split_ifs at hlead
  all_goals
    obtain rfl := Option.some.inj hlead
    constructor <;> simp <;> omega

end Pending

/-! ## One byte -/

theorem fst_readLead_eq_or (byte : UInt8) :
    (readLead byte).1 = [] ∨ (readLead byte).1 = [replacement] ∨
      (readLead byte).1 = [Char.ofNat byte.toNat] := by
  unfold readLead
  split
  · exact .inr (.inr rfl)
  · split <;> simp

theorem readLead_of_isContinuation (hbyte : IsContinuation byte) :
    readLead byte = ([replacement], none) := by
  have hlead : Pending.ofLead? byte = none := by
    unfold IsContinuation at hbyte
    simp only [Pending.ofLead?, UInt8.le_iff_toNat_le, ← UInt8.toNat_inj, UInt8.reduceToNat]
    split_ifs <;> first | rfl | omega
  rw [readLead, if_neg, hlead]
  rw [UInt8.lt_iff_toNat_lt]
  exact Nat.not_lt_of_le hbyte.1

theorem isProper_of_snd_readLead (hopen : pending ∈ (readLead byte).2) : pending.IsProper := by
  unfold readLead at hopen
  split at hopen
  · simp at hopen
  · split at hopen
    next hlead =>
      obtain rfl := Option.some.inj hopen
      exact Pending.isProper_of_ofLead? hlead
    next => simp at hopen

/-- Reading one more byte leaves the reader with a proper sequence, if with any. -/
theorem isProper_feed (hstate : ∀ pending ∈ state, pending.IsProper)
    (hopen : pending ∈ (feed state byte).2) : pending.IsProper := by
  cases state with
  | none => exact isProper_of_snd_readLead hopen
  | some earlier =>
      have hearlier : earlier.IsProper := hstate earlier rfl
      rw [feed] at hopen
      by_cases haccepts : earlier.accepts byte = true
      · rw [if_pos haccepts] at hopen
        have hrange := Pending.accepts_iff.mp haccepts
        have hgreatest := hearlier.greatest_le
        have hleast := hearlier.least_ge
        have htwo := hearlier.two_le
        by_cases hlast : earlier.missing ≤ 1
        · rw [if_pos hlast] at hopen
          simp at hopen
        · rw [if_neg hlast] at hopen
          obtain rfl := Option.some.inj hopen
          -- the sequence goes on, and the table kept its first bytes from being overlong
          have hbits : 2 ≤ earlier.bitsWith byte := by
            rw [Pending.bitsWith]
            omega
          constructor
          case least_ge => exact Nat.le_refl _
          case greatest_le => exact Nat.le_refl _
          case two_le_bits => exact fun _ => hbits
          case two_le => simp; omega
      · rw [if_neg haccepts] at hopen
        exact isProper_of_snd_readLead hopen

/-- A byte that is no continuation closes what has begun, and is read as the first. -/
theorem feed_of_not_isContinuation (hstate : ∀ pending ∈ state, pending.IsProper)
    (hbyte : ¬IsContinuation byte) :
    feed state byte = (flush state ++ (readLead byte).1, (readLead byte).2) := by
  cases state with
  | none => rfl
  | some pending =>
      have hproper : pending.IsProper := hstate pending rfl
      have hrefused : ¬pending.accepts byte = true := by
        rw [Pending.accepts_iff]
        rintro ⟨hleast, hgreatest⟩
        exact hbyte ⟨Nat.le_trans hproper.least_ge hleast,
          Nat.le_trans hgreatest hproper.greatest_le⟩
      rw [feed, if_neg hrefused]
      rfl

/-! ## Where the reader may be stopped -/

theorem decodeFrom_cons_of_not_isContinuation (hstate : ∀ pending ∈ state, pending.IsProper)
    (hbyte : ¬IsContinuation byte) (rest : List UInt8) :
    decodeFrom state (byte :: rest) = flush state ++ decode (byte :: rest) := by
  rw [decodeFrom, feed_of_not_isContinuation hstate hbyte, List.append_assoc]
  rfl

/-- The reader may be stopped behind any bytes, unless a continuation byte comes next. -/
theorem decodeFrom_append (hstate : ∀ pending ∈ state, pending.IsProper) (bytes : List UInt8)
    {rest : List UInt8} (hrest : ∀ byte ∈ rest.head?, ¬IsContinuation byte) :
    decodeFrom state (bytes ++ rest) = decodeFrom state bytes ++ decode rest := by
  induction bytes generalizing state with
  | nil =>
      -- What has begun is closed by the next byte, and on the other side by the end of the bytes.
      cases rest with
      | nil => exact (List.append_nil _).symm
      | cons byte after =>
          exact decodeFrom_cons_of_not_isContinuation hstate (hrest byte rfl) after
  | cons byte others ih =>
      have hnext : ∀ pending ∈ (feed state byte).2, pending.IsProper := by
        intro pending hopen
        exact isProper_feed hstate hopen
      rw [List.cons_append, decodeFrom, decodeFrom, ih hnext, List.append_assoc]

/-- Continuation bytes that continue nothing are replaced one by one. -/
theorem decode_append_of_isContinuation {orphans : List UInt8}
    (horphans : ∀ byte ∈ orphans, IsContinuation byte) (rest : List UInt8) :
    decode (orphans ++ rest) = List.replicate orphans.length replacement ++ decode rest := by
  induction orphans with
  | nil => rfl
  | cons byte others ih =>
      have hbyte := readLead_of_isContinuation (horphans byte List.mem_cons_self)
      have hothers := ih fun other hother => horphans other (List.mem_cons_of_mem _ hother)
      rw [List.cons_append, decode, decodeFrom, feed, hbyte, List.length_cons,
        List.replicate_succ, List.cons_append]
      exact congrArg (replacement :: ·) hothers

/-! ## Newlines -/

theorem ofNat_ne_newline {code : Nat} (hcode : code ≠ 10) : Char.ofNat code ≠ '\n' := by
  intro hnewline
  by_cases hvalid : code.isValidChar
  · have htoNat : (Char.ofNat code).toNat = code := by
      rw [Char.ofNat, dif_pos hvalid]
      rfl
    rw [hnewline] at htoNat
    exact hcode htoNat.symm
  · rw [Char.ofNat, dif_neg hvalid] at hnewline
    exact absurd hnewline (by decide)

/-- A newline is shown for no other byte. -/
theorem newline_notMem_fst_feed (hstate : ∀ pending ∈ state, pending.IsProper)
    (hbyte : byte ≠ 10) : '\n' ∉ (feed state byte).1 := by
  have hlead : '\n' ∉ (readLead byte).1 := by
    rcases fst_readLead_eq_or byte with hnone | hreplaced | hshown
    · simp [hnone]
    · simp [hreplaced, replacement]
    · rw [hshown, List.mem_singleton]
      refine (ofNat_ne_newline fun hcode => hbyte ?_).symm
      exact UInt8.toNat_inj.mp hcode
  cases state with
  | none => exact hlead
  | some pending =>
      have hproper : pending.IsProper := hstate pending rfl
      rw [feed]
      by_cases haccepts : pending.accepts byte = true
      · rw [if_pos haccepts]
        by_cases hlast : pending.missing ≤ 1
        · -- the last byte of a sequence makes a code point of at least `80`
          have hbits : 2 ≤ pending.bits := hproper.two_le_bits hlast
          rw [if_pos hlast, List.mem_singleton]
          refine (ofNat_ne_newline ?_).symm
          rw [Pending.bitsWith]
          omega
        · simp [hlast]
      · simp [haccepts, hlead, replacement]

theorem decodeFrom_newline_cons (hstate : ∀ pending ∈ state, pending.IsProper)
    (rest : List UInt8) :
    decodeFrom state (10 :: rest) = flush state ++ '\n' :: decode rest := by
  have hbyte : ¬IsContinuation 10 := by
    unfold IsContinuation
    decide
  rw [decodeFrom_cons_of_not_isContinuation hstate hbyte]
  rfl

end ParseOutcome.Utf8
