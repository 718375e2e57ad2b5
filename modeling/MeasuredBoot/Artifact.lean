import MeasuredBoot.ContractViolation
import MeasuredBoot.Register

/-!
# Artifacts

The byte-addressable inputs of a simulation. An `Artifact` is a `BiosImage` or a snapshot of
`Registers`; both are read as a string of bytes (`Artifact.content`). `Artifacts` holds at most one
of each kind, which is what lets a reference name its artifact by kind alone.

* `Artifact.readRange`: all bytes of a range, or the number of bytes that exist;
* `Artifact.readInto`: as many bytes as there are, copied to the front of a buffer.
-/

namespace MeasuredBoot

/-- The content of a firmware flash. Its size fits a signed 64-bit word, as that of any byte string
held in memory does. -/
structure BiosImage where
  bytes : ByteArray
  size_lt : bytes.size < UInt64.size / 2

namespace BiosImage

/-- The image with the given content, which every string that fits the size bound is. -/
def ofBytes? (bytes : ByteArray) : Option BiosImage :=
  if h : bytes.size < UInt64.size / 2 then some ⟨bytes, h⟩ else none

/-- The number of bytes. -/
def size (image : BiosImage) : Nat := image.bytes.size

/-- A short text that gives the size in place of the content. -/
def summary (image : BiosImage) : String := s!"BiosImage \x7b size: {image.size} \x7d"

end BiosImage

/-- An input of a simulation. -/
inductive Artifact where
  | biosImage (image : BiosImage)
  | registers (snapshot : Registers)

namespace Artifact

/-- The kind of an artifact. -/
def kind : Artifact → ArtifactKind
  | .biosImage _ => .biosImage
  | .registers _ => .registers

/-- The bytes of an artifact. -/
def content : Artifact → ByteArray
  | .biosImage image => image.bytes
  | .registers snapshot => snapshot.layout

/-- The number of bytes of an artifact. -/
def size (a : Artifact) : Nat := a.content.size

/-- All bytes of a range, which has to lie within the artifact. -/
def readRange (a : Artifact) (r : Range) : Except ContractViolation ByteArray :=
  if r.offset.toNat + r.length.toNat ≤ a.size then
    .ok (Bytes.slice a.content r.offset.toNat r.length.toNat)
  else
    .error (.shortRead a.kind r (min (a.size - r.offset.toNat) r.length.toNat))

/-- Copies bytes from `offset` on to the front of a buffer, until either ends; also gives their
number. -/
def readInto (a : Artifact) (buffer : ByteArray) (offset : UInt64) : ByteArray × Nat :=
  let n := min buffer.size (a.size - offset.toNat)
  (Bytes.splice buffer 0 (Bytes.slice a.content offset.toNat n), n)

end Artifact

/-- At most one artifact of each kind. -/
structure Artifacts where
  image : Option BiosImage := none
  snapshot : Option Registers := none
  deriving Inhabited

namespace Artifacts

/-- The artifact of a kind, if there is one. -/
def find? (as : Artifacts) : ArtifactKind → Option Artifact
  | .biosImage => as.image.map .biosImage
  | .registers => as.snapshot.map .registers

/-- The artifact of a kind. -/
def get (as : Artifacts) (kind : ArtifactKind) : Except ContractViolation Artifact :=
  match as.find? kind with
  | some a => .ok a
  | none => .error (.artifactMissing kind)

/-- The firmware image. -/
def getImage (as : Artifacts) : Except ContractViolation BiosImage :=
  match as.image with
  | some image => .ok image
  | none => .error (.artifactMissing .biosImage)

/-- The register snapshot. -/
def getRegisters (as : Artifacts) : Except ContractViolation Registers :=
  match as.snapshot with
  | some snapshot => .ok snapshot
  | none => .error (.artifactMissing .registers)

/-- The artifacts with `a` in the place of the one of its kind. -/
def put (as : Artifacts) : Artifact → Artifacts
  | .biosImage image => { as with image := some image }
  | .registers snapshot => { as with snapshot := some snapshot }

/-- Adds an artifact of a kind that is not there yet. -/
def insert (as : Artifacts) (a : Artifact) : Except ContractViolation Artifacts :=
  match as.find? a.kind with
  | some _ => .error (.duplicateArtifact a.kind)
  | none => .ok (as.put a)

/-- The artifacts in the order of their kinds. -/
def toList (as : Artifacts) : List Artifact := ArtifactKind.all.filterMap as.find?

@[simp] theorem find?_put_self (as : Artifacts) (a : Artifact) :
    (as.put a).find? a.kind = some a := by
  cases a <;> rfl

theorem find?_put_of_ne (as : Artifacts) {a : Artifact} {kind : ArtifactKind} (h : kind ≠ a.kind) :
    (as.put a).find? kind = as.find? kind := by
  cases a <;> cases kind <;> first | rfl | exact absurd rfl h

end Artifacts

end MeasuredBoot
