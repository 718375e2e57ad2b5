import MeasuredBoot.Proofs.Firmware.Reachable
import MeasuredBoot.Proofs.Run.ClosedForm

/-!
# BIOS directory tables in PCR 0

The search for tables reads each address once, and the AMD flow extends PCR 0 once for each table that is
found. The flash window keeps the low bits of an address only, so that a table can have several addresses.
Whether a table is found, and measured, more than once depends on how the image spells its addresses.

* `BiosDirectory.OneSpelling`: no table is reached through two addresses;
* `BiosDirectory.nodup_offsets_iff`: then, and only then, the tables lie at different offsets;
* `BiosDirectory.extendedBy_of_logs`: the extensions are those of the tables, in their order;
* `Run.amd_extends_tables`: what the flow makes of the tables that are found.
-/

namespace MeasuredBoot

open AddressMapper (amdFlash flashWindow)

variable {as : Artifacts} {algs : List Algorithm} {alg : Algorithm} {image : BiosImage}
variable {tables : List BiosDirectory}

/-! ## Spellings of addresses -/

namespace BiosDirectory

/-- No two addresses that can be reached are those of one offset in the flash window. -/
def OneSpelling (image : BiosImage) : Prop :=
  ∀ a b, Reachable image a → Reachable image b → a.toNat % flashWindow = b.toNat % flashWindow → a = b

theorem offset?_eq_iff {s t : BiosDirectory} {a b : UInt64} (hs : read image a = .ok s)
    (ht : read image b = .ok t) :
    amdFlash.offset? image.size a = amdFlash.offset? image.size b ↔
      a.toNat % flashWindow = b.toNat % flashWindow := by
  obtain ⟨i, hi, -⟩ := read_eq_ok_iff.mp hs
  obtain ⟨j, hj, -⟩ := read_eq_ok_iff.mp ht
  have hi := (AddressMapper.offsetOfBytes?_eq_some_iff.mp hi).1
  have hj := (AddressMapper.offsetOfBytes?_eq_some_iff.mp hj).1
  have hi' := AddressMapper.offset?_amdFlash_eq_some_iff.mp hi
  have hj' := AddressMapper.offset?_amdFlash_eq_some_iff.mp hj
  rw [hi, hj, Option.some.injEq]
  omega

/-- The tables that are found lie at different offsets exactly if none is reached through two addresses. -/
theorem nodup_offsets_iff (h : ofImage image = .ok tables) :
    (tables.map fun t => amdFlash.offset? image.size t.address).Nodup ↔ OneSpelling image := by
  have hfrontier := (frontier_of_ofImage h).2
  rw [List.nodup_map_iff_inj_on hfrontier.nodup.of_map]
  constructor
  · intro hinj a b ha hb hsame
    obtain ⟨s, hs, rfl⟩ := List.mem_map.mp (hfrontier.complete ha)
    obtain ⟨t, ht, rfl⟩ := List.mem_map.mp (hfrontier.complete hb)
    rw [hinj s hs t ht ((offset?_eq_iff (hfrontier.reads s hs) (hfrontier.reads t ht)).mpr hsame)]
  · intro hone s hs t ht hoffset
    have hsame := (offset?_eq_iff (hfrontier.reads s hs) (hfrontier.reads t ht)).mp hoffset
    have haddress := hone _ _ (hfrontier.reachable s hs) (hfrontier.reachable t ht) hsame
    have hread := hfrontier.reads s hs
    rw [haddress] at hread
    exact Except.ok.inj (hread.symm.trans (hfrontier.reads t ht))

/-! ## The extensions of the AMD flow -/

/-- An event of a bank that logs an extension by the bytes of a table, read at its address. -/
def ExtendedBy (image : BiosImage) (alg : Algorithm) (table : BiosDirectory) (e : Event) : Prop :=
  ∃ bytes record, table.HasBytes image bytes ∧ alg.hash bytes = .ok e.digest ∧ e.measured = some record ∧
    record.data = .references [flashMemory [table.range]]

/-- The extensions that the measurements of tables log in a bank, one for each table. -/
theorem extendedBy_of_logs (himage : as.image = some image) (hnodup : algs.Nodup) (halg : alg ∈ algs)
    (hhash : alg.isHash = true) {events : List (List Event)}
    (hread : ∀ t ∈ tables, read image t.address = .ok t)
    (h : List.Forall₂ (Action.Logs as algs) (tables.map measurement) events) :
    List.Forall₂ (ExtendedBy image alg) tables (events.flatten.filter (·.isExtension 0 alg)) := by
  induction tables generalizing events with
  | nil =>
    cases h
    exact .nil
  | cons table rest ih =>
    obtain ⟨htable, hrest⟩ := List.forall_mem_cons.mp hread
    obtain ⟨_, _, hfirst, hothers, rfl⟩ := List.forall₂_cons_left_iff.mp h
    obtain ⟨bytes, hfetch, hhas⟩ := exists_fetch_range himage htable
    cases hfirst with
    | extend actor hfetch' =>
      cases hfetch.symm.trans hfetch'
      rw [List.flatten_cons, List.filter_append, Action.extensions, hhas.isEmpty_eq, if_neg Bool.false_ne_true,
        MeasuredData.filter_isExtension hnodup halg, if_pos ⟨rfl, rfl⟩, List.singleton_append]
      refine .cons ⟨bytes, _, hhas, MeasuredData.hash_eq_digest_event _ _ _ _ _ hhash, rfl, rfl⟩ ?_
      exact ih hrest hothers

/-- Tables of one size at one offset are measured alike, whatever their addresses are. -/
theorem ExtendedBy.digest_eq {s t : BiosDirectory} {e e' : Event} (hs : ExtendedBy image alg s e)
    (ht : ExtendedBy image alg t e')
    (hoffset : amdFlash.offset? image.size s.address = amdFlash.offset? image.size t.address)
    (hlength : s.entries.length = t.entries.length) : e.digest = e'.digest := by
  obtain ⟨_, _, ⟨i, hi, rfl⟩, he, -, -⟩ := hs
  obtain ⟨_, _, ⟨j, hj, rfl⟩, he', -, -⟩ := ht
  rw [AddressMapper.offsetOfBytes?, hoffset, hlength] at hi
  obtain rfl := Option.some.inj (hi.symm.trans hj)
  rw [hlength] at he
  exact Except.ok.inj (he.symm.trans he')

end BiosDirectory

/-! ## Runs of the AMD flow -/

namespace Run

variable {m : Machine} {built : Tpm} {run : Run} {locality : Option UInt8}

/-- The extensions of PCR 0 are those of the tables. -/
theorem At.extendedBy_of_amd (h : run.At m Flow.amd 0) (hfinished : run.finish.status = .finished)
    (hstands : m.Stands as algs locality []) (himage : as.image = some image)
    (htables : BiosDirectory.ofImage image = .ok tables) :
    ∃ tpm, run.finish.machine.tpm = some tpm ∧
      ∀ alg ∈ algs, List.Forall₂ (BiosDirectory.ExtendedBy image alg) tables (tpm.extensions 0 alg) := by
  have hmeasuring := Step.measuring_platforms as [.embeddedFirmware, .biosDirectory]
  obtain ⟨actions, events, tpm, hactions, hlogs, htpm, -, hlog, -⟩ :=
    h.pcrValue_finish hfinished hmeasuring hstands
  obtain ⟨image', tables', himage', htables', rfl⟩ := BiosDirectory.allActions_eq_ok hactions
  obtain rfl := Option.some.inj (himage.symm.trans himage')
  obtain rfl := Except.ok.inj (htables.symm.trans htables')
  obtain ⟨efsEvents, tableEvents, hevent, htableLogs, rfl⟩ := List.forall₂_cons_left_iff.mp hlogs
  obtain ⟨-, started, -, rfl, hbooked⟩ := hstands.booked
  refine ⟨tpm, htpm, fun alg halg => ?_⟩
  have hextended := BiosDirectory.extendedBy_of_logs himage hbooked.balanced.nodup halg
    (hbooked.balanced.isHash alg halg) (BiosDirectory.read_of_ofImage htables) htableLogs
  -- the event of the Embedded Firmware Structure comes without an extension
  have hnone : efsEvents.filter (·.isExtension 0 alg) = [] := by
    cases hevent with
    | event actor hfetch =>
      rw [MeasuredData.filter_isExtension hbooked.balanced.nodup halg, if_neg fun h => absurd h.2 (by decide)]
    | skipped => rfl
  rwa [Tpm.extensions, hlog, List.flatten_cons, List.filter_append, hnone, List.nil_append]

/-- The AMD flow finishes on every image whose tables are found. It extends PCR 0 once for each of them, in
their order, and no two of them were reached through one address. But a table can have been reached through
several addresses, and is measured through each of them: the tables lie at different offsets exactly if the
image spells the address of each of them in one way. -/
theorem amd_extends_tables (hnew : built.IsNew algs) (hm : m.tpm = some built)
    (himage : m.artifacts.image = some image) (htables : BiosDirectory.ofImage image = .ok tables) :
    (withFlow m Flow.amd).finish.status = .finished ∧
    (∃ tpm payloads, (withFlow m Flow.amd).finish.machine.tpm = some tpm ∧
      List.Forall₂ (BiosDirectory.HasBytes image) tables payloads ∧
      ∀ alg ∈ algs, List.Forall₂ (BiosDirectory.ExtendedBy image alg) tables (tpm.extensions 0 alg) ∧
        tpm.HasMeasured alg 0 payloads) ∧
    (tables.map (·.address)).Nodup ∧
    ((tables.map fun t => amdFlash.offset? image.size t.address).Nodup ↔ BiosDirectory.OneSpelling image) := by
  let start : Machine := { m with flow := some Flow.amd }
  have hat : (withFlow m Flow.amd).At start Flow.amd 0 := ⟨rfl, rfl, rfl, rfl⟩
  have hstart : start.tpm = some built := hm
  have hstands := Machine.stands_of_isNew hnew hstart
  have hfinished : (withFlow m Flow.amd).finish.status = .finished := by
    rw [(hat.comesTo_amd hnew hstart).status_eq, Step.allIssues_amd himage htables]
    rfl
  obtain ⟨image', efs, tables', payloads, tpm, himage', -, htables', hpayloads, htpm, hmeasured⟩ :=
    hat.measured_of_amd hfinished hstands
  obtain rfl := Option.some.inj (himage.symm.trans himage')
  obtain rfl := Except.ok.inj (htables.symm.trans htables')
  obtain ⟨tpm', htpm', hextended⟩ := hat.extendedBy_of_amd hfinished hstands himage htables
  obtain rfl := Option.some.inj (htpm.symm.trans htpm')
  have hbanks (alg : Algorithm) : alg ∈ algs → alg ∈ built.algorithms :=
    (Tpm.mem_algorithms_iff hnew.withAlgorithms alg).mpr
  exact ⟨hfinished, ⟨tpm, payloads, htpm, hpayloads, fun alg halg =>
    ⟨hextended alg (hbanks alg halg), (hmeasured alg (hbanks alg halg)).1⟩⟩,
    (BiosDirectory.frontier_of_ofImage htables).2.nodup, BiosDirectory.nodup_offsets_iff htables⟩

end Run

/-! ## A table with two addresses -/

namespace BiosDirectory

/-- An image whose second table leads back to the first one through an address in physical memory, where the
structure points to it by its offset. -/
def twiceSpelled : BiosImage := (looping 0 0xFF000100).image

/-- The first table, as it is read at the other address. -/
def leadingOnAgain : BiosDirectory := { leadingOn with address := 0xFF000100 }

theorem find_twiceSpelled : EmbeddedFirmware.find twiceSpelled = .ok ⟨0x20000, 0, [0x100, 0, 0]⟩ :=
  (looping 0 0xFF000100).find_image (by decide +kernel) (by decide +kernel)

theorem ofImage_twiceSpelled :
    ofImage twiceSpelled = .ok [leadingOn, leadingBack 0xFF000100, leadingOnAgain] := by
  have hfirst : read twiceSpelled 0x100 = .ok leadingOn :=
    (looping 0 0xFF000100).read_image 0 (by decide) (by decide +kernel) (by decide +kernel) (by decide +kernel)
  have hsecond : read twiceSpelled 0x128 = .ok (leadingBack 0xFF000100) :=
    (looping 0 0xFF000100).read_image 0x28 (by decide) (by decide +kernel) (by decide +kernel) (by decide +kernel)
  have hthird : read twiceSpelled 0xFF000100 = .ok leadingOnAgain :=
    (looping 0 0xFF000100).read_image 0 (by decide) (by decide +kernel) (by decide +kernel) (by decide +kernel)
  have hall : readAll twiceSpelled [] [0x100] =
      .ok [leadingOn, leadingBack 0xFF000100, leadingOnAgain] :=
    calc readAll twiceSpelled [] [0x100]
      _ = readAll twiceSpelled [leadingOn] [0x128] := readAll_of_read rfl hfirst
      _ = readAll twiceSpelled [leadingOn, leadingBack 0xFF000100] [0x128, 0xFF000100] :=
        readAll_of_read (by decide) hsecond
      _ = readAll twiceSpelled [leadingOn, leadingBack 0xFF000100] [0xFF000100] :=
        readAll_of_isReadAt (by decide)
      _ = readAll twiceSpelled [leadingOn, leadingBack 0xFF000100, leadingOnAgain] [0x128] :=
        readAll_of_read (by decide) hthird
      _ = readAll twiceSpelled [leadingOn, leadingBack 0xFF000100, leadingOnAgain] [] :=
        readAll_of_isReadAt (by decide)
      _ = _ := readAll_nil _
  rw [ofImage, find_twiceSpelled, ok_bind,
    show EmbeddedFirmware.directoryAddresses ⟨0x20000, 0, [0x100, 0, 0]⟩ = [0x100] by decide, hall]
  rfl

/-- The first table lies at one offset, whatever its address. -/
theorem offset?_twiceSpelled :
    amdFlash.offset? twiceSpelled.size 0x100 = some 0x100 ∧
      amdFlash.offset? twiceSpelled.size 0xFF000100 = some 0x100 := by
  rw [show twiceSpelled.size = 0x20024 from FlashLayout.size_image _]
  decide

end BiosDirectory

open BiosDirectory in
/-- With two spellings, the AMD flow extends PCR 0 by the first table twice; with one, each table has an offset
of its own. -/
theorem Run.amd_extends_tables_twiceSpelled :
    (∃ tpm e₀ e₁ e₂, (withFlow (Machine.ofImage twiceSpelled) Flow.amd).finish.status = .finished ∧
      (withFlow (Machine.ofImage twiceSpelled) Flow.amd).finish.machine.tpm = some tpm ∧
      tpm.extensions 0 .sha256 = [e₀, e₁, e₂] ∧ e₀.digest = e₂.digest) ∧
    ¬OneSpelling twiceSpelled ∧
    ∃ tables, ofImage (looping 0 0x100).image = .ok tables ∧
      (tables.map fun t => amdFlash.offset? (looping 0 0x100).image.size t.address).Nodup := by
  have hnew : Tpm.IsNew Tpm.defaultAlgorithms Tpm.fresh := .inl ⟨rfl, rfl⟩
  obtain ⟨hoffset, hoffset'⟩ := offset?_twiceSpelled
  obtain ⟨hfinished, ⟨tpm, payloads, htpm, -, hevents⟩, -, hiff⟩ :=
    amd_extends_tables (m := Machine.ofImage twiceSpelled) hnew rfl rfl ofImage_twiceSpelled
  obtain ⟨e₀, _, h₀, hrest, hlog⟩ := List.forall₂_cons_left_iff.mp (hevents .sha256 (by decide)).1
  obtain ⟨e₁, _, -, hlast, rfl⟩ := List.forall₂_cons_left_iff.mp hrest
  obtain ⟨e₂, _, h₂, hnil, rfl⟩ := List.forall₂_cons_left_iff.mp hlast
  cases hnil
  have hdigest := h₀.digest_eq h₂ (hoffset.trans hoffset'.symm) rfl
  obtain ⟨tables, htables⟩ := exists_ofImage_looping
  obtain ⟨-, -, -, hone⟩ :=
    amd_extends_tables (m := Machine.ofImage (looping 0 0x100).image) hnew rfl rfl htables
  refine ⟨⟨tpm, e₀, e₁, e₂, hfinished, htpm, hlog, hdigest⟩, fun hspelling => ?_, tables, htables, hone.mpr ?_⟩
  · have hnodup := (List.nodup_cons.mp (hiff.mpr hspelling)).1
    exact hnodup (List.mem_cons_of_mem _ (List.mem_singleton.mpr (hoffset.trans hoffset'.symm)))
  · intro a b ha hb hsame
    obtain rfl | rfl := reachable_looping_iff.mp ha <;> obtain rfl | rfl := reachable_looping_iff.mp hb
    · rfl
    · exact absurd hsame (by decide)
    · exact absurd hsame (by decide)
    · rfl

end MeasuredBoot
