import MeasuredBoot.Proofs.Firmware.Flash
import MeasuredBoot.Sample

/-!
# Reachable BIOS directory tables

The tables of an image form a graph: the Embedded Firmware Structure points to some of them, and the entries
for tables of the second level lead from each table to others, or back. The search for tables keeps a list of
addresses to go on with. It ends for every image, with each table that can be reached once, or with the
problem of a table that can be reached but not read.

* `BiosDirectory.Reachable`: the addresses of the graph;
* `BiosDirectory.Frontier`: what holds whenever the search takes up an address;
* `BiosDirectory.Frontier.skip`, `BiosDirectory.Frontier.read`: what an address adds to the search;
* `BiosDirectory.Frontier.complete`: nothing is missing at the end;
* `BiosDirectory.ofImage_reachable`: the result of the search.
-/

namespace MeasuredBoot.BiosDirectory

variable {image : BiosImage} {tables : List BiosDirectory} {pending : List UInt64} {address : UInt64}

/-- The addresses of the tables that can be reached: those that the Embedded Firmware Structure points to,
and those that an entry for a table of the second level gives in a table that can be reached and read. -/
inductive Reachable (image : BiosImage) : UInt64 → Prop where
  | pointer {efs : EmbeddedFirmware} {p : UInt32} (hefs : EmbeddedFirmware.find image = .ok efs)
    (hp : p ∈ efs.biosPointers) (hzero : p ≠ 0) (hones : p ≠ 0xFFFFFFFF) : Reachable image p.toUInt64
  | entry {address : UInt64} {table : BiosDirectory} {e : BiosDirectoryEntry}
    (hreachable : Reachable image address) (hread : read image address = .ok table)
    (he : e ∈ table.entries) (htype : e.entryType = 0x70) : Reachable image e.sourceAddress

/-! ## Where the addresses come from -/

theorem mem_directoryAddresses_iff {efs : EmbeddedFirmware} : address ∈ efs.directoryAddresses ↔
    ∃ p ∈ efs.biosPointers, p ≠ 0 ∧ p ≠ 0xFFFFFFFF ∧ p.toUInt64 = address := by
  simp only [EmbeddedFirmware.directoryAddresses, List.mem_map, List.mem_filter, decide_eq_true_iff, and_assoc]

theorem mem_level2Addresses_iff {table : BiosDirectory} : address ∈ table.level2Addresses ↔
    ∃ e ∈ table.entries, e.entryType = 0x70 ∧ e.sourceAddress = address := by
  simp only [level2Addresses, List.mem_map, List.mem_filter, decide_eq_true_iff, and_assoc]
  rfl

theorem isReadAt_iff : isReadAt tables address = true ↔ address ∈ tables.map (·.address) := by
  rw [isReadAt, List.any_eq_true, List.mem_map]
  exact exists_congr fun t => and_congr_right fun _ => beq_iff_eq

/-! ## The search -/

/-- An address that a table was read at, or that is left to go on with. -/
def Noted (tables : List BiosDirectory) (pending : List UInt64) (address : UInt64) : Prop :=
  address ∈ tables.map (·.address) ∨ address ∈ pending

/-- What the search has found and what it has yet to read. Each of the addresses can be reached, none was
read twice, and those that the tables lead to are not forgotten. -/
structure Frontier (image : BiosImage) (tables : List BiosDirectory) (pending : List UInt64) : Prop where
  nodup : (tables.map (·.address)).Nodup
  reads : ∀ t ∈ tables, read image t.address = .ok t
  reachable : ∀ t ∈ tables, Reachable image t.address
  pending_reachable : ∀ a ∈ pending, Reachable image a
  starts : ∀ efs, EmbeddedFirmware.find image = .ok efs → ∀ a ∈ efs.directoryAddresses, Noted tables pending a
  closed : ∀ t ∈ tables, ∀ a ∈ t.level2Addresses, Noted tables pending a

theorem Noted.skip {a : UInt64} (h : Noted tables (address :: pending) a)
    (hread : isReadAt tables address = true) : Noted tables pending a := by
  obtain h | h := h
  · exact .inl h
  · obtain rfl | h := List.mem_cons.mp h
    · exact .inl (isReadAt_iff.mp hread)
    · exact .inr h

theorem Noted.read {table : BiosDirectory} {a : UInt64} (h : Noted tables (table.address :: pending) a) :
    Noted (tables ++ [table]) (table.level2Addresses.reverse ++ pending) a := by
  rw [Noted, List.map_append, List.mem_append, List.mem_append]
  obtain h | h := h
  · exact .inl (.inl h)
  · obtain rfl | h := List.mem_cons.mp h
    · exact .inl (.inr List.mem_cons_self)
    · exact .inr (.inr h)

namespace Frontier

theorem start {efs : EmbeddedFirmware} (hefs : EmbeddedFirmware.find image = .ok efs) :
    Frontier image [] efs.directoryAddresses where
  nodup := List.nodup_nil
  reads := nofun
  reachable := nofun
  pending_reachable a ha := by
    obtain ⟨p, hp, hzero, hones, rfl⟩ := mem_directoryAddresses_iff.mp ha
    exact .pointer hefs hp hzero hones
  starts efs' hefs' a ha := by
    obtain rfl := Except.ok.inj (hefs.symm.trans hefs')
    exact .inr ha
  closed := nofun

/-- An address that was read before adds nothing. -/
theorem skip (h : Frontier image tables (address :: pending)) (hread : isReadAt tables address = true) :
    Frontier image tables pending where
  nodup := h.nodup
  reads := h.reads
  reachable := h.reachable
  pending_reachable a ha := h.pending_reachable a (List.mem_cons_of_mem _ ha)
  starts efs hefs a ha := (h.starts efs hefs a ha).skip hread
  closed t ht a ha := (h.closed t ht a ha).skip hread

/-- A table that is read adds the addresses that it leads to. -/
theorem read {table : BiosDirectory} (h : Frontier image tables (address :: pending))
    (hnew : ¬isReadAt tables address = true) (hread : BiosDirectory.read image address = .ok table) :
    Frontier image (tables ++ [table]) (table.level2Addresses.reverse ++ pending) := by
  obtain rfl := address_of_read hread
  have haddress := h.pending_reachable table.address List.mem_cons_self
  constructor
  case nodup =>
    rw [List.map_append, List.nodup_append_comm]
    exact List.nodup_cons.mpr ⟨fun hmem => hnew (isReadAt_iff.mpr hmem), h.nodup⟩
  case reads => exact List.forall_mem_append.mpr ⟨h.reads, List.forall_mem_singleton.mpr hread⟩
  case reachable => exact List.forall_mem_append.mpr ⟨h.reachable, List.forall_mem_singleton.mpr haddress⟩
  case pending_reachable =>
    refine List.forall_mem_append.mpr ⟨fun a ha => ?_, fun a ha => ?_⟩
    · obtain ⟨e, he, htype, rfl⟩ := mem_level2Addresses_iff.mp (List.mem_reverse.mp ha)
      exact .entry haddress hread he htype
    · exact h.pending_reachable a (List.mem_cons_of_mem _ ha)
  case starts => exact fun efs hefs a ha => (h.starts efs hefs a ha).read
  case closed =>
    refine List.forall_mem_append.mpr ⟨fun t ht a ha => (h.closed t ht a ha).read, ?_⟩
    refine List.forall_mem_singleton.mpr fun a ha => .inr ?_
    exact List.mem_append_left _ (List.mem_reverse.mpr ha)

/-- When no address is left, all tables that can be reached were read. -/
theorem complete (h : Frontier image tables []) (hreachable : Reachable image address) :
    address ∈ tables.map (·.address) := by
  induction hreachable with
  | pointer hefs hp hzero hones =>
    have hstart := mem_directoryAddresses_iff.mpr ⟨_, hp, hzero, hones, rfl⟩
    exact (h.starts _ hefs _ hstart).resolve_right List.not_mem_nil
  | entry _ hread he htype ih =>
    obtain ⟨t, ht, rfl⟩ := List.mem_map.mp ih
    obtain rfl := Except.ok.inj ((h.reads t ht).symm.trans hread)
    have hlevel2 := mem_level2Addresses_iff.mpr ⟨_, he, htype, rfl⟩
    exact (h.closed t ht _ hlevel2).resolve_right List.not_mem_nil

/-- The tables that were read, when no address is left, are those that can be reached. -/
theorem mem_iff (h : Frontier image tables []) : address ∈ tables.map (·.address) ↔ Reachable image address := by
  refine ⟨fun hmem => ?_, h.complete⟩
  obtain ⟨t, ht, rfl⟩ := List.mem_map.mp hmem
  exact h.reachable t ht

/-- The search goes on until no address is left. -/
theorem of_readAll {all : List BiosDirectory} (h : Frontier image tables pending)
    (hall : readAll image tables pending = .ok all) : Frontier image all [] := by
  fun_induction readAll image tables pending with
  | case1 tables =>
    cases hall
    exact h
  | case2 tables address pending hdone ih => exact ih (h.skip hdone) hall
  | case3 => cases hall
  | case4 tables address pending hnew table htable ih => exact ih (h.read hnew htable) hall

/-- If the search fails, then for a table that can be reached. -/
theorem of_readAll_error {e : SourceError} (h : Frontier image tables pending)
    (hall : readAll image tables pending = .error e) :
    ∃ a, Reachable image a ∧ BiosDirectory.read image a = .error e := by
  fun_induction readAll image tables pending with
  | case1 => cases hall
  | case2 tables address pending hdone ih => exact ih (h.skip hdone) hall
  | case3 tables address pending hnew e' hread =>
    cases hall
    exact ⟨address, h.pending_reachable address List.mem_cons_self, hread⟩
  | case4 tables address pending hnew table htable ih => exact ih (h.read hnew htable) hall

end Frontier

/-! ## The number of tables -/

/-- An entry of a table gives an address that stands in the image. -/
theorem exists_word_of_read {table : BiosDirectory} {e : BiosDirectoryEntry}
    (hread : read image address = .ok table) (he : e ∈ table.entries) :
    ∃ i < image.size, (Bytes.word image.bytes i 8).toUInt64 = e.sourceAddress := by
  obtain ⟨offset, -, -, hsize, rfl⟩ := read_eq_ok_iff.mp hread
  rw [decode] at he
  obtain ⟨k, hk, rfl⟩ := List.mem_map.mp he
  have hk := List.mem_range.mp hk
  refine ⟨offset + byteSize k + 8, ?_, rfl⟩
  simp only [byteSize, BiosDirectoryEntry.byteSize] at hsize ⊢
  omega

theorem length_biosPointers_of_find {efs : EmbeddedFirmware} (h : EmbeddedFirmware.find image = .ok efs) :
    efs.biosPointers.length = 3 := by
  rw [EmbeddedFirmware.find_eq] at h
  dsimp only at h
  split at h
  · cases h
    rfl
  · cases h

/-- The addresses that can be reached stand in the structure or in the image. -/
theorem Reachable.mem {efs : EmbeddedFirmware} (h : Reachable image address)
    (hefs : EmbeddedFirmware.find image = .ok efs) :
    address ∈ efs.biosPointers.map (·.toUInt64) ++
      (List.range image.size).map fun i => (Bytes.word image.bytes i 8).toUInt64 := by
  cases h with
  | pointer hefs' hp =>
    obtain rfl := Except.ok.inj (hefs.symm.trans hefs')
    exact List.mem_append_left _ (List.mem_map_of_mem hp)
  | entry _ hread he htype =>
    obtain ⟨i, hi, hword⟩ := exists_word_of_read hread he
    exact List.mem_append_right _ (List.mem_map.mpr ⟨i, List.mem_range.mpr hi, hword⟩)

theorem Frontier.length_le {efs : EmbeddedFirmware} (h : Frontier image tables pending)
    (hefs : EmbeddedFirmware.find image = .ok efs) : tables.length ≤ image.size + 3 := by
  have hsubset : tables.map (·.address) ⊆ efs.biosPointers.map (·.toUInt64) ++
      (List.range image.size).map fun i => (Bytes.word image.bytes i 8).toUInt64 := by
    intro a ha
    obtain ⟨t, ht, rfl⟩ := List.mem_map.mp ha
    exact (h.reachable t ht).mem hefs
  have hlength := (List.subperm_of_subset h.nodup hsubset).length_le
  rw [List.length_append, List.length_map, List.length_map, List.length_map, List.length_range,
    length_biosPointers_of_find hefs] at hlength
  omega

/-! ## The result -/

theorem Reachable.exists_find (h : Reachable image address) : ∃ efs, EmbeddedFirmware.find image = .ok efs := by
  induction h with
  | pointer hefs => exact ⟨_, hefs⟩
  | entry _ _ _ _ ih => exact ih

/-- Tables that are found are those of a search that has come to its end, and there is at least one. -/
theorem frontier_of_ofImage (h : ofImage image = .ok tables) : tables ≠ [] ∧ Frontier image tables [] := by
  obtain ⟨efs, hefs, h⟩ := exists_ok_of_bind h
  obtain ⟨all, hall, h⟩ := exists_ok_of_bind h
  have hfrontier := (Frontier.start hefs).of_readAll hall
  cases all with
  | nil => cases h
  | cons table rest =>
    cases h
    exact ⟨List.cons_ne_nil table rest, hfrontier⟩

/-- If there is a structure and the search fails, then nothing can be reached, or something that can be
reached cannot be read. -/
theorem ofImage_eq_error {efs : EmbeddedFirmware} {e : SourceError}
    (hefs : EmbeddedFirmware.find image = .ok efs) (h : ofImage image = .error e) :
    (e = .biosDirectoryNotFound ∧ ∀ a, ¬Reachable image a) ∨ ∃ a, Reachable image a ∧ read image a = .error e := by
  rw [ofImage, hefs, ok_bind] at h
  obtain h | ⟨all, hall, h⟩ := bind_eq_error_iff.mp h
  · exact .inr ((Frontier.start hefs).of_readAll_error h)
  · have hfrontier := (Frontier.start hefs).of_readAll hall
    cases all with
    | nil =>
      cases h
      exact .inl ⟨rfl, fun a ha => List.not_mem_nil (hfrontier.complete ha)⟩
    | cons table rest => cases h

/-- If some table can be reached, and each of them can be read, then they are found. -/
theorem exists_ofImage (hsome : Reachable image address)
    (hread : ∀ a, Reachable image a → ∃ table, read image a = .ok table) : ∃ tables, ofImage image = .ok tables := by
  obtain ⟨efs, hefs⟩ := hsome.exists_find
  cases hall : ofImage image with
  | ok tables => exact ⟨tables, rfl⟩
  | error e =>
    obtain ⟨-, hnone⟩ | ⟨a, ha, herror⟩ := ofImage_eq_error hefs hall
    · exact absurd hsome (hnone address)
    · obtain ⟨table, htable⟩ := hread a ha
      cases herror.symm.trans htable

/-- Tables that are found include all that can be reached. -/
theorem exists_read_of_ofImage (h : ofImage image = .ok tables) (hreachable : Reachable image address) :
    ∃ table, read image address = .ok table := by
  have hfrontier := (frontier_of_ofImage h).2
  obtain ⟨t, ht, rfl⟩ := List.mem_map.mp (hfrontier.complete hreachable)
  exact ⟨t, hfrontier.reads t ht⟩

/-- The search for tables has a result for every image. It succeeds exactly if there is an Embedded Firmware
Structure, if some table can be reached, and if every table that can be reached can be read. Then it gives the
tables that can be reached, each once and as it is read at its address; there are at most three more of them
than there are bytes. If a table that can be reached cannot be read, the search fails as reading such a table
does. -/
theorem ofImage_reachable (image : BiosImage) :
    ((∃ tables, ofImage image = .ok tables) ↔
      (∃ efs, EmbeddedFirmware.find image = .ok efs) ∧ (∃ a, Reachable image a) ∧
        ∀ a, Reachable image a → ∃ table, read image a = .ok table) ∧
    (∀ tables, ofImage image = .ok tables →
      (tables.map (·.address)).Nodup ∧ (∀ a, a ∈ tables.map (·.address) ↔ Reachable image a) ∧
        (∀ t ∈ tables, read image t.address = .ok t) ∧ tables.length ≤ image.size + 3) ∧
    ∀ a e, Reachable image a → read image a = .error e →
      ∃ b e', Reachable image b ∧ read image b = .error e' ∧ ofImage image = .error e' := by
  refine ⟨⟨?_, fun ⟨_, ⟨a, ha⟩, hread⟩ => exists_ofImage ha hread⟩, fun tables h => ?_, fun a e ha hread => ?_⟩
  · rintro ⟨tables, h⟩
    obtain ⟨hne, hfrontier⟩ := frontier_of_ofImage h
    obtain ⟨t, ht⟩ := List.exists_mem_of_ne_nil tables hne
    have hsome := hfrontier.reachable t ht
    exact ⟨hsome.exists_find, ⟨t.address, hsome⟩, fun a => exists_read_of_ofImage h⟩
  · have hfrontier := (frontier_of_ofImage h).2
    obtain ⟨efs, hefs, -⟩ := exists_ok_of_bind h
    exact ⟨hfrontier.nodup, fun a => hfrontier.mem_iff, hfrontier.reads, hfrontier.length_le hefs⟩
  · obtain ⟨efs, hefs⟩ := ha.exists_find
    cases hall : ofImage image with
    | ok tables =>
      obtain ⟨table, htable⟩ := exists_read_of_ofImage hall ha
      cases hread.symm.trans htable
    | error e' =>
      obtain ⟨-, hnone⟩ | ⟨b, hb, herror⟩ := ofImage_eq_error hefs hall
      · exact absurd ha (hnone a)
      · exact ⟨b, e', hb, herror, rfl⟩

/-! ## Tables that lead back -/

/-- A table of the first level that leads to a second one. -/
def leadingOn : BiosDirectory :=
  ⟨0x100, level1Cookie, 0, [Sample.directoryEntry BiosDirectoryEntry.level2Directory 0x40 0x128]⟩

/-- A table of the second level that leads back to the first one, through an address, and to itself. -/
def leadingBack (first : UInt64) : BiosDirectory :=
  ⟨0x128, level2Cookie, 0, [Sample.directoryEntry BiosDirectoryEntry.level2Directory 0x28 first,
    Sample.directoryEntry BiosDirectoryEntry.level2Directory 0x40 0x128]⟩

/-- The two tables one after the other. The structure points to the first of them, and somewhere else. -/
def looping (elsewhere : UInt32) (first : UInt64) : FlashLayout where
  content := leadingOn.encode ++ (leadingBack first).encode
  efs := ⟨0x20000, 0, [0x100, elsewhere, 0]⟩
  content_fits := by
    simp only [encode, leadingOn, leadingBack, Sample.directoryEntry, BiosDirectoryEntry.encode, List.foldl_cons,
      List.foldl_nil, ByteArray.size_append, Bytes.size_ofWord]
    decide
  efs_fits := by
    simp only [EmbeddedFirmware.encode, List.foldl_cons, List.foldl_nil, ByteArray.size_append, Bytes.size_ofWord,
      Bytes.size_replicate, EmbeddedFirmware.byteSize]

theorem find_looping : EmbeddedFirmware.find (looping 0 0x100).image = .ok ⟨0x20000, 0, [0x100, 0, 0]⟩ :=
  (looping 0 0x100).find_image (by decide +kernel) (by decide +kernel)

theorem read_leadingOn : read (looping 0 0x100).image 0x100 = .ok leadingOn :=
  (looping 0 0x100).read_image 0 (by decide) (by decide +kernel) (by decide +kernel) (by decide +kernel)

theorem read_leadingBack : read (looping 0 0x100).image 0x128 = .ok (leadingBack 0x100) :=
  (looping 0 0x100).read_image 0x28 (by decide) (by decide +kernel) (by decide +kernel) (by decide +kernel)

/-- The two tables lead to nothing but each other. -/
theorem reachable_looping_iff : Reachable (looping 0 0x100).image address ↔ address = 0x100 ∨ address = 0x128 := by
  have hfirst : Reachable (looping 0 0x100).image 0x100 :=
    .pointer find_looping (List.mem_cons_self (a := 0x100)) (by decide) (by decide)
  constructor
  · intro h
    induction h with
    | @pointer efs p hefs hp hzero hones =>
      obtain rfl := Except.ok.inj (find_looping.symm.trans hefs)
      have hp : p = 0x100 ∨ p = 0 := by simpa using hp
      obtain rfl := hp.resolve_right hzero
      exact .inl (by decide)
    | entry _ hread he htype ih =>
      obtain rfl | rfl := ih
      · obtain rfl := Except.ok.inj (read_leadingOn.symm.trans hread)
        obtain rfl := List.mem_singleton.mp he
        exact .inr rfl
      · obtain rfl := Except.ok.inj (read_leadingBack.symm.trans hread)
        obtain rfl | rfl := List.mem_pair.mp he
        · exact .inl rfl
        · exact .inr rfl
  · rintro (rfl | rfl)
    · exact hfirst
    · exact .entry hfirst read_leadingOn List.mem_cons_self rfl

theorem exists_ofImage_looping : ∃ tables, ofImage (looping 0 0x100).image = .ok tables := by
  refine exists_ofImage (reachable_looping_iff.mpr (.inl rfl)) fun a ha => ?_
  obtain rfl | rfl := reachable_looping_iff.mp ha
  · exact ⟨leadingOn, read_leadingOn⟩
  · exact ⟨leadingBack 0x100, read_leadingBack⟩

theorem find_astray :
    EmbeddedFirmware.find (looping 0xFFFFF0 0x100).image = .ok ⟨0x20000, 0, [0x100, 0xFFFFF0, 0]⟩ :=
  (looping 0xFFFFF0 0x100).find_image (by decide +kernel) (by decide +kernel)

theorem reachable_astray : Reachable (looping 0xFFFFF0 0x100).image 0xFFFFF0 :=
  .pointer find_astray (p := 0xFFFFF0) (by decide) (by decide) (by decide)

theorem read_astray : read (looping 0xFFFFF0 0x100).image 0xFFFFF0 =
    .error (.biosDirectoryTruncated (0xFFFFF0 : UInt64).toNat) := by
  have hbeyond : AddressMapper.amdFlash.offsetOfBytes? (looping 0xFFFFF0 0x100).image.size 0xFFFFF0 headerSize =
      none := by
    rw [FlashLayout.size_image]
    decide
  rw [read, hbeyond]

/-- With the structure pointing to the first table only, both are found; with a pointer beyond the image, there
is an error that tells so. -/
theorem ofImage_reachable_looping :
    (∃ tables, ofImage (looping 0 0x100).image = .ok tables ∧ (tables.map (·.address)).Nodup ∧
      ∀ a, a ∈ tables.map (·.address) ↔ a = 0x100 ∨ a = 0x128) ∧
    ∃ a e, Reachable (looping 0xFFFFF0 0x100).image a ∧ read (looping 0xFFFFF0 0x100).image a = .error e ∧
      ofImage (looping 0xFFFFF0 0x100).image = .error e := by
  obtain ⟨-, htables, -⟩ := ofImage_reachable (looping 0 0x100).image
  obtain ⟨-, -, hastray⟩ := ofImage_reachable (looping 0xFFFFF0 0x100).image
  obtain ⟨tables, hofImage⟩ := exists_ofImage_looping
  obtain ⟨hnodup, hmem, -⟩ := htables tables hofImage
  exact ⟨⟨tables, hofImage, hnodup, fun a => (hmem a).trans reachable_looping_iff⟩,
    hastray _ _ reachable_astray read_astray⟩

end MeasuredBoot.BiosDirectory
