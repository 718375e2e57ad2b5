import MeasuredBoot.Firmware.EmbeddedFirmware

/-!
# BIOS directory tables

A BIOS directory table lists the components of a firmware image. The Embedded Firmware Structure
points to tables of the first level, whose entries can point to tables of the second level.

* `BiosDirectory.read`: the table at an address;
* `BiosDirectory.readAll`: the tables that can be reached from some addresses, each of them once;
* `BiosDirectory.ofImage`: the tables that can be reached from the Embedded Firmware Structure.
-/

namespace MeasuredBoot

/-- An entry of a BIOS directory table. -/
structure BiosDirectoryEntry where
  entryType : UInt8
  regionType : UInt8
  flags : UInt8
  subProgram : UInt8
  size : UInt32
  sourceAddress : UInt64
  destinationAddress : UInt64
  deriving DecidableEq, Repr, Inhabited

namespace BiosDirectoryEntry

/-- The size of an entry in bytes. -/
def byteSize : Nat := 24

/-- The type of entries that point to a table of the second level. -/
def level2Directory : UInt8 := 0x70

/-- The entry whose bytes start at an offset. -/
def decode (bytes : ByteArray) (offset : Nat) : BiosDirectoryEntry where
  entryType := Bytes.get bytes offset
  regionType := Bytes.get bytes (offset + 1)
  flags := Bytes.get bytes (offset + 2)
  subProgram := Bytes.get bytes (offset + 3)
  size := (Bytes.word bytes (offset + 4) 4).toUInt32
  sourceAddress := (Bytes.word bytes (offset + 8) 8).toUInt64
  destinationAddress := (Bytes.word bytes (offset + 16) 8).toUInt64

/-- The bytes of an entry. -/
def encode (e : BiosDirectoryEntry) : ByteArray :=
  ⟨#[e.entryType, e.regionType, e.flags, e.subProgram]⟩ ++ Bytes.ofWord e.size.toNat 4 ++
    Bytes.ofWord e.sourceAddress.toNat 8 ++ Bytes.ofWord e.destinationAddress.toNat 8

end BiosDirectoryEntry

/-- A BIOS directory table. -/
structure BiosDirectory where
  /-- The address that the table was read at. -/
  address : UInt64
  cookie : UInt32
  checksum : UInt32
  entries : List BiosDirectoryEntry
  deriving DecidableEq, Repr

namespace BiosDirectory

/-- What a table of the first level starts with: `$BHD`. -/
def level1Cookie : UInt32 := 0x44484224

/-- What a table of the second level starts with: `$BL2`. -/
def level2Cookie : UInt32 := 0x324C4224

/-- The size of the header of a table in bytes. -/
def headerSize : Nat := 16

/-- Whether a table can start with a cookie. -/
def isCookie (cookie : UInt32) : Bool := cookie == level1Cookie || cookie == level2Cookie

/-- The number of bytes of a table with `count` entries. -/
def byteSize (count : Nat) : Nat := headerSize + BiosDirectoryEntry.byteSize * count

/-- The table with `count` entries that is reached through `address`, whose bytes start at an
offset. -/
def decode (bytes : ByteArray) (offset : Nat) (address : UInt64) (count : Nat) : BiosDirectory where
  address := address
  cookie := (Bytes.word bytes offset 4).toUInt32
  checksum := (Bytes.word bytes (offset + 4) 4).toUInt32
  entries := (List.range count).map fun i =>
    BiosDirectoryEntry.decode bytes (offset + byteSize i)

/-- The bytes of a table. -/
def encode (table : BiosDirectory) : ByteArray :=
  table.entries.foldl (fun bytes e => bytes ++ e.encode)
    (Bytes.ofWord table.cookie.toNat 4 ++ Bytes.ofWord table.checksum.toNat 4 ++
      Bytes.ofWord table.entries.length 4 ++ Bytes.ofWord 0 4)

/-- The table at an address of an image. -/
def read (image : BiosImage) (address : UInt64) : Except SourceError BiosDirectory :=
  match AddressMapper.amdFlash.offsetOfBytes? image.size address headerSize with
  | none => .error (.biosDirectoryTruncated address.toNat)
  | some offset =>
    let cookie := (Bytes.word image.bytes offset 4).toUInt32
    let count := Bytes.word image.bytes (offset + 8) 4
    if !isCookie cookie then .error (.biosDirectoryCookieInvalid offset cookie)
    else if image.size < offset + byteSize count then .error (.biosDirectoryTruncated offset)
    else .ok (decode image.bytes offset address count)

/-- Whether a table is one of the second level. -/
def isLevel2 (table : BiosDirectory) : Bool := table.cookie == level2Cookie

/-- The addresses of the header and the entries of a table. -/
def range (table : BiosDirectory) : Range :=
  ⟨table.address, (byteSize table.entries.length).toUInt64⟩

/-- The addresses that the entries of a table give for tables of the second level. -/
def level2Addresses (table : BiosDirectory) : List UInt64 :=
  (table.entries.filter (·.entryType = BiosDirectoryEntry.level2Directory)).map (·.sourceAddress)

theorem address_of_read {image : BiosImage} {address : UInt64} {table : BiosDirectory}
    (h : read image address = .ok table) : table.address = address := by
  simp only [read] at h
  repeat' split at h
  all_goals cases h
  rfl

/-- Whether a table was read at an address. -/
def isReadAt (tables : List BiosDirectory) (address : UInt64) : Bool :=
  tables.any (·.address == address)

/-- The number of addresses that no table was read at. -/
def unread (tables : List BiosDirectory) : Nat :=
  ((List.range UInt64.size).filter fun n => !isReadAt tables n.toUInt64).length

theorem unread_append_lt {tables : List BiosDirectory} {table : BiosDirectory}
    (h : isReadAt tables table.address = false) : unread (tables ++ [table]) < unread tables := by
  have split : (List.range UInt64.size).filter (fun n => !isReadAt (tables ++ [table]) n.toUInt64)
      = ((List.range UInt64.size).filter fun n => !isReadAt tables n.toUInt64).filter
          fun n => !(table.address == n.toUInt64) := by
    rw [List.filter_filter]
    congr 1
    funext n
    simp [isReadAt, Bool.and_comm]
  rw [unread, unread, split]
  refine List.length_filter_lt_length_iff_exists.2 ⟨table.address.toNat, ?_, by simp⟩
  rw [List.mem_filter]
  exact ⟨List.mem_range.2 table.address.toNat_lt, by simp [h]⟩

/-- Reads the tables at pending addresses behind those of `tables`. The addresses that a table
gives come before the pending ones, the last of them first; an address is read once. -/
def readAll (image : BiosImage) (tables : List BiosDirectory) :
    (pending : List UInt64) → Except SourceError (List BiosDirectory)
  | [] => .ok tables
  | address :: pending =>
    if _ : isReadAt tables address then readAll image tables pending
    else
      match _ : read image address with
      | .error e => .error e
      | .ok table => readAll image (tables ++ [table]) (table.level2Addresses.reverse ++ pending)
termination_by pending => (unread tables, pending.length)
decreasing_by
  · exact Prod.Lex.right _ (Nat.lt_succ_self _)
  · refine Prod.Lex.left _ _ (unread_append_lt ?_)
    rw [address_of_read ‹_›]
    exact Bool.eq_false_iff.2 ‹_›

/-- The tables that can be reached from the Embedded Firmware Structure, of which there has to be
one. -/
def ofImage (image : BiosImage) : Except SourceError (List BiosDirectory) := do
  let efs ← EmbeddedFirmware.find image
  match ← readAll image [] efs.directoryAddresses with
  | [] => throw .biosDirectoryNotFound
  | tables => return tables

end BiosDirectory

end MeasuredBoot
