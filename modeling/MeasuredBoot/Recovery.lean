import MeasuredBoot.Recovery.Replay

/-!
# Recovering a register

When a reported PCR value disagrees with the replay, a register may differ from the snapshot in a
few bits. `PcrReplay.recover` searches for the fewest bits of a measured register to flip so that
the replay ends in the reported value.
-/

namespace MeasuredBoot

/-- A value of a register that explains a PCR value. -/
structure RecoveredRegister where
  id : Register
  /-- The bits that differ from the snapshot, where bit 0 is the least significant one. -/
  flips : Combination
  /-- The value that was measured. -/
  measured : Nat
  recovered : Nat
  deriving DecidableEq, Repr

/-- The text of a recovered register. -/
def RecoveredRegister.text (r : RecoveredRegister) : String :=
  s!"{r.id.name}: 0x{Hex.upper r.measured} -> 0x{Hex.upper r.recovered} " ++
    s!"(flipped bits {r.flips.text})"

/-- One measurement of a replay, of which the payload is to be varied. -/
structure ReplayWindow where
  alg : Algorithm
  /-- The value of the PCR before the measurement. -/
  before : ByteArray
  payload : ByteArray
  /-- The digests of the measurements that follow. -/
  after : List ByteArray

namespace ReplayWindow

/-- The final value of the PCR with another payload in the place of the measured one. -/
def finalValue (w : ReplayWindow) (payload : ByteArray) : Except TpmError ByteArray := do
  w.alg.extendAll (← w.alg.extend w.before (← w.alg.hash payload)) w.after

/-- Whether a payload leads to an expected final value. -/
def explains (w : ReplayWindow) (expected payload : ByteArray) : Bool :=
  match w.finalValue payload with
  | .ok value => value == expected
  | .error _ => false

/-- The search for bits of `initial` to flip, which stands in the payload from `offset` on. Each
worker keeps a payload of its own, into which it puts the candidates. -/
def search (w : ReplayWindow) (force : Workforce) (initial expected : ByteArray) (offset : Nat) :
    Search ByteArray where
  toWorkforce := force
  initial := initial
  init := fun _ => .ok w.payload
  check := fun payload candidate =>
    let patched := Bytes.splice payload offset candidate
    (w.explains expected patched, patched)

end ReplayWindow

namespace PcrReplay

/-- The measurement at a location, and the bytes of the register in its payload. -/
def window (replay : PcrReplay) (location : RegisterLocation) :
    Except RecoveryError (ReplayWindow × ByteArray) :=
  match replay.measurements[location.measurement]? with
  | some m =>
    if location.offset + location.width ≤ m.payload.size then do
      let earlier := digests (replay.measurements.take location.measurement)
      let before ← (replay.alg.extendAll replay.initial earlier).mapError .replay
      let after := digests (replay.measurements.drop (location.measurement + 1))
      return (⟨replay.alg, before, m.payload, after⟩,
        Bytes.slice m.payload location.offset location.width)
    else .error (.registerNotMeasured location.id replay.pcr)
  | none => .error (.registerNotMeasured location.id replay.pcr)

/-- The value of the register at a location, with the fewest bits flipped and at most `maxDistance`
of them, that makes the replay end in an expected value. -/
def recover (replay : PcrReplay) (force : Workforce) (location : RegisterLocation)
    (expected : ByteArray) (maxDistance : Nat) :
    Except RecoveryError (Option RecoveredRegister) := do
  let alg := replay.alg
  let size ← alg.digestSize.mapError .replay
  if expected.size ≠ size then
    throw (.digestSizeMismatch alg size expected.size)
  let (window, initial) ← replay.window location
  let search := window.search force initial expected location.offset
  match ← (search.run maxDistance).outcome.mapError .search with
  | none => return none
  | some flips =>
    return some {
      id := location.id, flips
      measured := location.id.decode initial
      recovered := location.id.decode (Bytes.flipBits flips initial) }

end PcrReplay

end MeasuredBoot
