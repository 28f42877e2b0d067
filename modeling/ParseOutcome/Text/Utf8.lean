/-!
# Lossy UTF-8

Bytes are read as UTF-8, and whatever is not well formed is shown as replacement
characters: one for each maximal malformed part, that is, for each longest run
of bytes that begins a well-formed sequence and is then broken off, and one for
each byte that begins none.

The reader is a machine over single bytes.  Its state is the sequence that has
begun and not ended, if there is one.  The first byte of a sequence fixes how
many bytes must follow and the range of the second; every later byte lies in
`0x80 … 0xBF`.  A byte that cannot continue what has begun closes it with one
replacement character and is then read afresh (`feed`), so a byte that continues
nothing leaves the machine in the same state whatever went before.
-/

namespace ParseOutcome.Utf8

/-- The character shown in place of bytes that are not UTF-8. -/
def replacement : Char := '\uFFFD'

/-- A sequence of several bytes that has begun and lacks `missing` of them. -/
structure Pending where
  missing : Nat
  /-- The least byte that may come next. -/
  least : UInt8
  /-- The greatest byte that may come next. -/
  greatest : UInt8
  /-- The bits of the code point read so far. -/
  bits : Nat
deriving DecidableEq

namespace Pending

/-- The sequence that `byte` begins, if it begins one of several bytes.  The
range of the second byte leaves out overlong forms, surrogates and everything
above `0x10FFFF`. -/
def ofLead? (byte : UInt8) : Option Pending :=
  if 0xC2 ≤ byte ∧ byte ≤ 0xDF then some ⟨1, 0x80, 0xBF, byte.toNat % 32⟩
  else if byte = 0xE0 then some ⟨2, 0xA0, 0xBF, 0x0⟩
  else if byte = 0xED then some ⟨2, 0x80, 0x9F, 0xD⟩
  else if 0xE1 ≤ byte ∧ byte ≤ 0xEF then some ⟨2, 0x80, 0xBF, byte.toNat % 16⟩
  else if byte = 0xF0 then some ⟨3, 0x90, 0xBF, 0x0⟩
  else if 0xF1 ≤ byte ∧ byte ≤ 0xF3 then some ⟨3, 0x80, 0xBF, byte.toNat % 8⟩
  else if byte = 0xF4 then some ⟨3, 0x80, 0x8F, 0x4⟩
  else none

/-- Whether `byte` may come next. -/
def accepts (pending : Pending) (byte : UInt8) : Bool :=
  decide (pending.least ≤ byte ∧ byte ≤ pending.greatest)

/-- The bits of the code point once `byte` has been read as well. -/
def bitsWith (pending : Pending) (byte : UInt8) : Nat :=
  pending.bits * 64 + byte.toNat % 64

end Pending

/-- Reads `byte` where no sequence has begun: the characters it shows at once,
and the sequence it begins. -/
def readLead (byte : UInt8) : List Char × Option Pending :=
  if byte < 0x80 then ([Char.ofNat byte.toNat], none)
  else
    match Pending.ofLead? byte with
    | some pending => ([], some pending)
    | none => ([replacement], none)

/-- The characters shown for a sequence that ends here unfinished. -/
def flush : Option Pending → List Char
  | none => []
  | some _ => [replacement]

/-- Reads one more byte. -/
def feed : Option Pending → UInt8 → List Char × Option Pending
  | none, byte => readLead byte
  | some pending, byte =>
      if pending.accepts byte then
        if pending.missing ≤ 1 then ([Char.ofNat (pending.bitsWith byte)], none)
        else ([], some ⟨pending.missing - 1, 0x80, 0xBF, pending.bitsWith byte⟩)
      else (replacement :: (readLead byte).1, (readLead byte).2)

/-- The characters shown for the bytes that follow what has begun. -/
def decodeFrom : Option Pending → List UInt8 → List Char
  | state, [] => flush state
  | state, byte :: rest => (feed state byte).1 ++ decodeFrom (feed state byte).2 rest

/-- The characters shown for a list of bytes. -/
def decode (bytes : List UInt8) : List Char :=
  decodeFrom none bytes

end ParseOutcome.Utf8
