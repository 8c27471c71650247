import Dfmcp.Core.Basic
import Dfmcp.Library.Wire

/-!
# Journal deltas

`journal_delta.rs`: a payload stored as copies of runs of its predecessor and literals in between.
`encode` scans both from the front for aligned unchanged runs and keeps a common suffix; `validate`
walks every command before `decode` reconstructs anything.
-/

namespace Dfmcp

namespace JournalDelta

open Machine Wire

def magic : Bytes := utf8 "DFMDLT01"
def header : Nat := 20
def minCopy : Nat := 32
def minSavings : Nat := 128
def maxPayload : Nat := 16 * 1024 * 1024
def maxCommands : Nat := 32768

inductive Error where
  | limitExceeded
  | invalidEncoding
  | wrongBaseLength
deriving DecidableEq

/-! ## Encoding -/

structure Encoder where
  bytes : Bytes
  commands : Nat
  maximum : Nat

namespace Encoder

def room (encoder : Encoder) (amount : Nat) : Bool :=
  encoder.commands < maxCommands ∧ amount ≤ encoder.maximum - encoder.bytes.length

/-- Append a literal. There is no encoder left when there is no room. -/
def literal (encoder : Encoder) (value : Bytes) : Option Encoder :=
  if value = [] then some encoder
  else if ¬ encoder.room (5 + value.length) then none
  else some { encoder with
    bytes := encoder.bytes ++ [0] ++ beBytes 4 value.length ++ value
    commands := encoder.commands + 1 }

def copy (encoder : Encoder) (offset length : Nat) : Option Encoder :=
  if length = 0 then some encoder
  else if ¬ encoder.room 9 then none
  else some { encoder with
    bytes := encoder.bytes ++ [1] ++ beBytes 4 offset ++ beBytes 4 length
    commands := encoder.commands + 1 }

end Encoder

/-- The number of leading bytes on which two strings agree. -/
def common : Bytes → Bytes → Nat
  | a :: as, b :: bs => if a = b then common as bs + 1 else 0
  | _, _ => 0

/-- `target[from..to]`. -/
def slice (bytes : Bytes) (start stop : Nat) : Bytes := (bytes.take stop).drop start

/-- The scan up to `stop`: the encoder and the start of the literal still to be written. -/
def scan (base target : Bytes) (stop : Nat) (encoder : Encoder) (position literalStart : Nat) :
    Option (Encoder × Nat) :=
  if h : position < stop then
    let runStart := position
    -- The unchanged run at this position.
    let position := position + common (slice target position stop) (base.drop position)
    let next := if position < stop then position + 1 else position
    if position - runStart ≥ minCopy then do
      let encoder ← encoder.literal (slice target literalStart runStart)
      let encoder ← encoder.copy runStart (position - runStart)
      scan base target stop encoder next position
    else scan base target stop encoder next literalStart
  else some (encoder, literalStart)
termination_by stop - position
decreasing_by
  all_goals
    split <;> omega

/-- The length of the common suffix, when it is worth a copy. -/
def suffixLength (base target : Bytes) : Nat :=
  let suffix := common base.reverse target.reverse
  if suffix ≥ minCopy then suffix else 0

/-- The bytes and the commands of a delta, before the count is filled in. -/
def encodeBody (base target : Bytes) (maximum : Nat) : Option Encoder := do
  let suffix := suffixLength base target
  let stop := target.length - suffix
  let bytes := magic ++ beBytes 4 base.length ++ beBytes 4 target.length ++ beBytes 4 0
  let (encoder, literalStart) ← scan base target stop ⟨bytes, 0, maximum⟩ 0 0
  let encoder ← encoder.literal (slice target literalStart stop)
  encoder.copy (base.length - suffix) suffix

/-- A delta, or the decision to store the payload as it is. -/
def encode (base target : Bytes) : Except Error (Option Bytes) :=
  if base.length > maxPayload ∨ target.length > maxPayload then .error .limitExceeded
  else if target.length < minSavings then .ok none
  else if target.length - minSavings < header + 9 then .ok none
  else match encodeBody base target (target.length - minSavings) with
    | none => .ok none
    | some encoder =>
        .ok (some (encoder.bytes.take 16 ++ beBytes 4 encoder.commands ++ encoder.bytes.drop 20))

/-! ## Decoding -/

def u32 : Reader Error Nat := do
  let bytes ← take .invalidEncoding 4
  pure (ofBe bytes)

/-- The bytes one command produces, when its range is inside the base. -/
def commandAmount (base : Bytes) : Reader Error Nat := do
  let tag ← take .invalidEncoding 1
  if tag = [0] then do
    let n ← u32
    let _ ← take .invalidEncoding n
    pure n
  else if tag = [1] then do
    let offset ← u32
    let n ← u32
    if offset > base.length ∨ n > base.length - offset then fail .invalidEncoding else pure n
  else fail .invalidEncoding

/-- Check one command and add the bytes it produces. -/
def checkCommand (base : Bytes) (length produced : Nat) : Reader Error Nat := do
  let amount ← commandAmount base
  if amount = 0 ∨ amount > length - produced then fail .invalidEncoding
  else pure (produced + amount)

def checkCommands (base : Bytes) (length : Nat) : (commands produced : Nat) → Reader Error Nat
  | 0, produced => pure produced
  | commands + 1, produced => do
      let produced ← checkCommand base length produced
      checkCommands base length commands produced

/-- The declared length and number of commands. -/
def checkHeader (base : Bytes) (maximum : Nat) : Reader Error (Nat × Nat) := do
  let found ← take .invalidEncoding 8
  if found ≠ magic then fail .invalidEncoding
  else do
    let baseLength ← u32
    if baseLength ≠ base.length then fail .wrongBaseLength
    else do
      let length ← u32
      if length > maximum then fail .limitExceeded
      else do
        let commands ← u32
        if commands = 0 ∨ commands > maxCommands then fail .invalidEncoding
        else pure (length, commands)

/-- The declared length, the number of commands, and the commands. -/
def validate (base encoded : Bytes) (maximum : Nat) : Except Error (Nat × Nat × Bytes) := do
  if maximum > maxPayload ∨ base.length > maxPayload ∨ encoded.length > maxPayload then
    throw .limitExceeded
  let ((length, commands), body) ← checkHeader base maximum encoded
  let (produced, rest) ← checkCommands base length commands 0 body
  if produced ≠ length ∨ rest ≠ [] then throw .invalidEncoding
  pure (length, commands, body)

def expandedLength (base encoded : Bytes) (maximum : Nat) : Except Error Nat :=
  (validate base encoded maximum).map Prod.fst

/-- What one command produces. -/
def expandCommand (base : Bytes) : Reader Error Bytes := do
  let tag ← take .invalidEncoding 1
  if tag = [0] then do
    let n ← u32
    take .invalidEncoding n
  else if tag = [1] then do
    let offset ← u32
    let n ← u32
    if offset + n > base.length then fail .invalidEncoding
    else pure (slice base offset (offset + n))
  else fail .invalidEncoding

def expandCommands (base : Bytes) : (commands : Nat) → (output : Bytes) → Reader Error Bytes
  | 0, output => pure output
  | commands + 1, output => do
      let bytes ← expandCommand base
      expandCommands base commands (output ++ bytes)

def decode (base encoded : Bytes) (maximum : Nat) : Except Error Bytes := do
  let (_, commands, body) ← validate base encoded maximum
  let (output, _) ← expandCommands base commands [] body
  pure output

end JournalDelta

end Dfmcp
