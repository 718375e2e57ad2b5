/-!
# Address spaces

A simulation has at most one artifact of each kind. Its bytes are addressed either by their own
offsets or through an `AddressMapper`, so an `AddressSpace` is a kind of artifact with or without a
mapper. `AddressSpace.all` lists the spaces in their order.
-/

namespace MeasuredBoot

/-- The kinds of artifact that a simulation can hold. -/
inductive ArtifactKind where
  /-- The content of the firmware flash. -/
  | biosImage
  /-- A snapshot of hardware status registers. -/
  | registers
  deriving DecidableEq, Repr

/-- The name of a kind in texts and reports. -/
def ArtifactKind.name : ArtifactKind → String
  | .biosImage => "BiosImage"
  | .registers => "Registers"

/-- The kinds in their order. -/
def ArtifactKind.all : List ArtifactKind := [.biosImage, .registers]

/-- How addresses of a platform fall on an artifact. -/
inductive AddressMapper where
  /-- The artifact ends at the 4 GiB boundary of physical memory. -/
  | physMem
  /-- The last 16 MiB of the artifact are the flash window, of which an address selects an offset by
  its low 24 bits. -/
  | amdFlash
  deriving DecidableEq, Repr

/-- The name of a mapper in texts and reports. -/
def AddressMapper.name : AddressMapper → String
  | .physMem => "PhysMem"
  | .amdFlash => "AmdFlash"

/-- A kind of artifact and the mapper through which it is addressed; without one, addresses are
offsets. -/
structure AddressSpace where
  artifact : ArtifactKind
  mapper : Option AddressMapper
  deriving DecidableEq, Repr

/-- The address spaces in their order: by kind, the one without a mapper first. -/
def AddressSpace.all : List AddressSpace :=
  ArtifactKind.all.flatMap fun kind =>
    [⟨kind, none⟩, ⟨kind, some .physMem⟩, ⟨kind, some .amdFlash⟩]

theorem AddressSpace.mem_all (s : AddressSpace) : s ∈ AddressSpace.all := by
  obtain ⟨_ | _, _ | _ | _⟩ := s <;> decide

/-- The names of a space, each followed by a colon. -/
def AddressSpace.text (s : AddressSpace) : String :=
  match s.mapper with
  | some mapper => s!"{s.artifact.name}:{mapper.name}:"
  | none => s!"{s.artifact.name}:"

end MeasuredBoot
