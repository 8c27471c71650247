import Dfmcp.Core.Digest

/-!
# Errors, identifiers and anchors

The shared vocabulary of `dfmcp-core`: structured errors (`error.rs`), identifiers (`ids.rs`)
and the small values of `model.rs` that every other crate passes around. An identifier is the
machine integer it wraps; zero is the reserved `NIL` of every kind.
-/

namespace Dfmcp

open Machine

/-! ## Errors -/

inductive ErrorCode where
  | versionMismatch
  | sessionNotFound
  | fortressNotLoaded
  | adapterUnavailable
  | cursorGap
  | staleAnchor
  | invalidRequest
  | invalidIntent
  | invalidPlan
  | capabilityDenied
  | riskCeilingExceeded
  | budgetExceeded
  | preconditionsFailed
  | conflict
  | leaseDenied
  | checkpointRequired
  | adapterRejected
  | adapterFailure
  | effectIndeterminate
  | verificationTimeout
  | cancellationRequested
  | cancellationIncomplete
  | restoreRequired
  | corruptLedger
  | checksumMismatch
  | compatibilityUnknown
  | internalInvariantViolation
deriving DecidableEq

def ErrorCode.asStr : ErrorCode → String
  | .versionMismatch => "version_mismatch"
  | .sessionNotFound => "session_not_found"
  | .fortressNotLoaded => "fortress_not_loaded"
  | .adapterUnavailable => "adapter_unavailable"
  | .cursorGap => "cursor_gap"
  | .staleAnchor => "stale_anchor"
  | .invalidRequest => "invalid_request"
  | .invalidIntent => "invalid_intent"
  | .invalidPlan => "invalid_plan"
  | .capabilityDenied => "capability_denied"
  | .riskCeilingExceeded => "risk_ceiling_exceeded"
  | .budgetExceeded => "budget_exceeded"
  | .preconditionsFailed => "preconditions_failed"
  | .conflict => "conflict"
  | .leaseDenied => "lease_denied"
  | .checkpointRequired => "checkpoint_required"
  | .adapterRejected => "adapter_rejected"
  | .adapterFailure => "adapter_failure"
  | .effectIndeterminate => "effect_indeterminate"
  | .verificationTimeout => "verification_timeout"
  | .cancellationRequested => "cancellation_requested"
  | .cancellationIncomplete => "cancellation_incomplete"
  | .restoreRequired => "restore_required"
  | .corruptLedger => "corrupt_ledger"
  | .checksumMismatch => "checksum_mismatch"
  | .compatibilityUnknown => "compatibility_unknown"
  | .internalInvariantViolation => "internal_invariant_violation"

structure DfmcpError where
  code : ErrorCode
  message : String
  retryable : Bool
  details : List (String × String)
deriving DecidableEq

namespace DfmcpError

def new (code : ErrorCode) (message : String) : DfmcpError := ⟨code, message, false, []⟩

def setRetryable (e : DfmcpError) (value : Bool) : DfmcpError := { e with retryable := value }

def withDetail (e : DfmcpError) (key value : String) : DfmcpError :=
  { e with details := e.details ++ [(key, value)] }

/-- The `Display` text. -/
def display (e : DfmcpError) : String :=
  e.code.asStr ++ ": " ++ e.message ++ if e.retryable then " (retryable)" else ""

end DfmcpError

/-- `Result<T>` of the source. -/
abbrev Result := Except DfmcpError

section Outcomes

variable {ε α β : Type}

theorem isOk_iff (x : Except ε α) : x.isOk = true ↔ ∃ a, x = .ok a := by
  cases x <;> simp [Except.isOk, Except.toBool]

theorem bind_ok_iff {x : Except ε α} {f : α → Except ε β} {b : β} :
    (x >>= f) = .ok b ↔ ∃ a, x = .ok a ∧ f a = .ok b := by
  cases x with
  | error e => simp [bind, Except.bind]
  | ok a => simp [bind, Except.bind]

/-- A check that passes and then a continuation. -/
theorem check_ok_iff {x : Except ε Unit} {f : Unit → Except ε β} {b : β} :
    (x >>= f) = .ok b ↔ x = .ok () ∧ f () = .ok b := by
  cases x with
  | error e => simp [bind, Except.bind]
  | ok a => simp [bind, Except.bind]

/-- An early return that was not taken. -/
theorem guard_ok_iff {c : Prop} [Decidable c] {e : ε} {f : α → Except ε β} {y : Except ε β}
    {b : β} : (if c then ((throw e : Except ε α) >>= f) else y) = .ok b ↔ ¬ c ∧ y = .ok b := by
  by_cases hc : c
  · simp [hc, throw, throwThe, MonadExceptOf.throw, bind, Except.bind]
  · simp [hc]

theorem pure_ok_iff {a b : α} : (pure a : Except ε α) = .ok b ↔ a = b := by
  simp [pure, Except.pure]

theorem mapError_ok_iff {ε' : Type} {x : Except ε α} {f : ε → ε'} {a : α} :
    x.mapError f = .ok a ↔ x = .ok a := by
  cases x <;> simp [Except.mapError]

end Outcomes

/-! ## Strings -/

/-- The UTF-8 bytes of a string. -/
def utf8 (s : String) : Bytes := s.toByteArray.data.toList

/-- Rust's `str::len`: the length in bytes. -/
def strLen (s : String) : Nat := (utf8 s).length

/-- Rust's `String::from_utf8`. -/
def fromUtf8 (bytes : Bytes) : Option String := String.fromUTF8? ⟨bytes.toArray⟩

theorem fromUtf8_utf8 (s : String) : fromUtf8 (utf8 s) = some s := by
  have harray : (⟨(utf8 s).toArray⟩ : ByteArray) = s.toByteArray := by simp [utf8]
  rw [fromUtf8, harray, String.fromUTF8?, dif_pos s.isValidUTF8]
  rfl

theorem utf8_of_fromUtf8 {bytes : Bytes} {s : String} (h : fromUtf8 bytes = some s) :
    utf8 s = bytes := by
  rw [fromUtf8, String.fromUTF8?] at h
  split_ifs at h with hvalid
  obtain rfl := Option.some.inj h
  rfl

/-! ## Identifiers -/

abbrev FortressId := U 64
abbrev EntityId := U 64
abbrev SessionId := U 128
abbrev LeaseId := U 128
abbrev PlanId := U 128
abbrev EdgeId := U 128
abbrev EventId := U 128

/-- `format!("{:032x}", n)`: how a 128-bit identifier is displayed. -/
def hex32 (n : Nat) : String :=
  String.ofList ((List.range 32).map fun i => Nat.digitChar (n / 16 ^ (31 - i) % 16))

/-- A digest is displayed as its bytes in hexadecimal. -/
def Digest32.toHex (d : Digest32) : String :=
  String.ofList (d.bytes.flatMap fun b => [Nat.digitChar (b.toNat / 16), Nat.digitChar (b.toNat % 16)])

/-! ## Ticks, cursors and anchors -/

abbrev GameTick := U 64

structure ObservationCursor where
  epoch : U 64
  sequence : U 64
deriving DecidableEq

namespace ObservationCursor

/-- Cursors are ordered by epoch, then sequence. -/
def key (c : ObservationCursor) : U 64 ×ₗ U 64 := toLex (c.epoch, c.sequence)

theorem key_injective : Function.Injective key := by
  rintro ⟨e, s⟩ ⟨e', s'⟩ h
  simpa [key] using h

instance : LinearOrder ObservationCursor := LinearOrder.lift' key key_injective

/-- The next cursor of the same epoch, unless the sequence is exhausted. -/
def checkedNext (c : ObservationCursor) : Option ObservationCursor :=
  (U.checkedAdd c.sequence 1).map fun sequence => { c with sequence }

/-- The derived `Debug` text. -/
def debug (c : ObservationCursor) : String :=
  "ObservationCursor \x7b epoch: " ++ toString c.epoch.val ++ ", sequence: " ++
    toString c.sequence.val ++ " \x7d"

theorem checkedNext_epoch {c d : ObservationCursor} (h : c.checkedNext = some d) :
    d.epoch = c.epoch := by
  obtain ⟨s, -, rfl⟩ := Option.map_eq_some_iff.1 h
  rfl

theorem checkedNext_sequence {c d : ObservationCursor} (h : c.checkedNext = some d) :
    d.sequence.val = c.sequence.val + 1 := by
  obtain ⟨s, hs, rfl⟩ := Option.map_eq_some_iff.1 h
  exact (U.checkedAdd_eq_some.1 hs).symm

theorem lt_checkedNext {c d : ObservationCursor} (h : c.checkedNext = some d) : c < d := by
  have hsequence := checkedNext_sequence h
  change toLex (c.epoch, c.sequence) < toLex (d.epoch, d.sequence)
  rw [Prod.Lex.toLex_lt_toLex]
  refine .inr ⟨(checkedNext_epoch h).symm, ?_⟩
  change c.sequence.val < d.sequence.val
  omega

end ObservationCursor

structure StateAnchor where
  fortressId : FortressId
  cursor : ObservationCursor
  tick : GameTick
  stateHash : Digest32
deriving DecidableEq

/-! ## Map geometry -/

structure MapCoord where
  x : S 32
  y : S 32
  z : S 32
deriving DecidableEq

namespace MapCoord

/-- Coordinates are ordered by `x`, then `y`, then `z`. -/
def key (c : MapCoord) : S 32 ×ₗ S 32 ×ₗ S 32 := toLex (c.x, toLex (c.y, c.z))

theorem key_injective : Function.Injective key := by
  rintro ⟨x, y, z⟩ ⟨x', y', z'⟩ h
  simpa [key] using h

instance : LinearOrder MapCoord := LinearOrder.lift' key key_injective

end MapCoord

structure MapCuboid where
  min : MapCoord
  max : MapCoord
deriving DecidableEq

namespace MapCuboid

def new (min max : MapCoord) : Result MapCuboid :=
  if min.x > max.x ∨ min.y > max.y ∨ min.z > max.z then
    .error (.new .invalidRequest "map cuboid minimum must not exceed maximum")
  else .ok ⟨min, max⟩

def contains (c : MapCuboid) (coord : MapCoord) : Bool :=
  coord.x ≥ c.min.x && coord.x ≤ c.max.x && coord.y ≥ c.min.y && coord.y ≤ c.max.y &&
    coord.z ≥ c.min.z && coord.z ≤ c.max.z

def containsCuboid (c other : MapCuboid) : Bool := c.contains other.min && c.contains other.max

/-- The number of tiles, unless a side is inverted or the product overflows. -/
def tileCount (c : MapCuboid) : Option (U 64) := do
  let side (lo hi : S 32) : Option (U 64) :=
    if hi.val - lo.val + 1 < 0 then none else some (U.wrap (hi.val - lo.val + 1).toNat)
  let width ← side c.min.x c.max.x
  let height ← side c.min.y c.max.y
  let depth ← side c.min.z c.max.z
  (← U.checkedMul width height).checkedMul depth

end MapCuboid

/-! ## Commit states -/

inductive CommitState where
  | prepared
  | committing
  | appliedAwaitingVerification
  | verified
  | compensationPending
  | compensated
  | cancelRequested
  | cancelled
  | failed
  | indeterminate
deriving DecidableEq

def CommitState.isTerminal : CommitState → Bool
  | .verified | .compensated | .cancelled | .failed => true
  | _ => false

end Dfmcp
