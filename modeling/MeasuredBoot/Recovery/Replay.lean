import MeasuredBoot.Machine
import MeasuredBoot.Recovery.Error

/-!
# Replaying a PCR

A `PcrReplay` is what it takes to compute the value of a PCR without the trusted platform module:
the starting value and the measurements into the PCR, with the bytes that were measured.

* `PcrReplay.ofMachine`: the replay of a PCR of a machine that booted;
* `PcrReplay.finalValue`: the value after all measurements;
* `PcrReplay.locate?`: the first place where the bytes of a register were measured.
-/

namespace MeasuredBoot

/-- An extension of a PCR. -/
structure Measurement where
  digest : ByteArray
  /-- The bytes that were measured. -/
  payload : ByteArray
  /-- Where the payload comes from, by offsets; empty unless it was given by reference and not
  converted. -/
  references : References

/-- The extensions of a PCR in the bank of one algorithm. -/
structure PcrReplay where
  pcr : UInt8
  alg : Algorithm
  /-- The value before the extensions. -/
  initial : ByteArray
  measurements : List Measurement

/-- Where the bytes of a register stand in the payload of a measurement. -/
structure RegisterLocation where
  id : Register
  /-- The number of the measurement. -/
  measurement : Nat
  offset : Nat
  width : Nat
  deriving DecidableEq, Repr

namespace Measurement

/-- The measurement that was logged as an event, the `index`-th one into its PCR. -/
def ofEvent (as : Artifacts) (index : Nat) (event : Event) : Except RecoveryError Measurement := do
  match event.measured with
  | none => throw (.payloadUnknown event.pcr index)
  | some record =>
    let payload ← (record.data.bytes as).mapError (.run ∘ .contract)
    let references ← match record.data.references?, record.data.converter with
      | some refs, none => (References.resolve refs as).mapError (.run ∘ .contract)
      | _, _ => pure []
    return { digest := event.digest, payload, references }

/-- The ranges of a measurement with their artifacts, in the order in which the payload has their
bytes. -/
def extents (m : Measurement) : List (ArtifactKind × Range) :=
  m.references.flatMap fun r => r.ranges.map fun range => (r.artifact, range)

/-- The offset of a range of the register snapshot among the bytes of some extents, which follow
`before` other bytes. -/
def offsetFrom? (target : Range) (before : Nat) : List (ArtifactKind × Range) → Option Nat
  | [] => none
  | (kind, range) :: rest =>
    if kind = .registers ∧ range.contains target then
      some (before + (target.offset.toNat - range.offset.toNat))
    else offsetFrom? target (before + range.length.toNat) rest

/-- The offset of a register in the payload. -/
def offsetOf? (m : Measurement) (id : Register) : Option Nat := offsetFrom? id.range 0 m.extents

end Measurement

namespace PcrReplay

/-- The replay of a PCR of a machine that booted. -/
def ofMachine (m : Machine) (pcr : UInt8) (alg : Algorithm) : Except RecoveryError PcrReplay := do
  let tpm ← m.getTpm.mapError .run
  match tpm.locality with
  | none => throw (.tpmNotInitialized pcr)
  | some locality =>
    let initial ← (alg.initialValue pcr locality).mapError .replay
    let extensions := (tpm.eventsFor pcr alg).filter (·.kind = .extend)
    let measurements ← extensions.zipIdx.mapM fun (event, index) =>
      Measurement.ofEvent m.artifacts index event
    return { pcr, alg, initial, measurements }

/-- The digests of some measurements. -/
def digests (ms : List Measurement) : List ByteArray := ms.map (·.digest)

/-- The value of the PCR after all measurements. -/
def finalValue (replay : PcrReplay) : Except RecoveryError ByteArray :=
  (replay.alg.extendAll replay.initial (digests replay.measurements)).mapError .replay

/-- The first place where the bytes of a register were measured. -/
def locate? (replay : PcrReplay) (id : Register) : Option RegisterLocation :=
  replay.measurements.zipIdx.findSome? fun (m, index) =>
    (m.offsetOf? id).map fun offset => ⟨id, index, offset, id.width⟩

end PcrReplay

end MeasuredBoot
