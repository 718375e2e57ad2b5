import MeasuredBoot.Proofs.Artifact.Extents
import MeasuredBoot.Proofs.Register.Layout
import MeasuredBoot.Register.Snapshot

/-!
# What a snapshot reads back

Reading the range of a register from a snapshot gives the low bytes of what the snapshot holds for it, as many
as the register is wide (`Registers.exists_readRange_range`). A snapshot whose registers were set holds no
more. One that was read from a text can: a text puts its members in as they are.

* `Registers.setAll_narrowed`: setting members instead of putting them in narrows the snapshot to the widths;
* `Registers.ofText?_eq_map`: a text puts in its members, one after the other;
* `Registers.reads_back`: which snapshots read back what they hold.
-/

namespace MeasuredBoot

namespace Register

/-- The low bytes of a value, as many as the register is wide. -/
def narrow (id : Register) (value : UInt64) : UInt64 :=
  (value.toNat % (1 <<< (8 * id.width))).toUInt64

theorem toNat_narrow (id : Register) (value : UInt64) :
    (id.narrow value).toNat = value.toNat % (1 <<< (8 * id.width)) :=
  UInt64.toNat_ofNat_of_lt' ((Nat.mod_le ..).trans_lt value.toNat_lt)

theorem narrow_eq_iff {id : Register} {value : UInt64} :
    id.narrow value = value ↔ value.toNat < 1 <<< (8 * id.width) := by
  rw [← UInt64.toNat_inj, toNat_narrow, Nat.mod_eq_iff_lt]
  cases id <;> decide

/-- The snapshot has the range of each register. -/
theorem readRange_range (id : Register) (rs : Registers) :
    (Artifact.registers rs).readRange id.range =
      .ok (Bytes.slice rs.layout id.range.offset.toNat id.width) := by
  have hin : id.range.offset.toNat + id.range.length.toNat ≤ rs.layout.size := by
    rw [rs.size_layout]
    cases id <;> decide
  exact Artifact.readRange_eq_ok_iff.mpr ⟨hin, by rw [id.toNat_length_range]; rfl⟩

end Register

namespace Registers

variable {rs : Registers} {id : Register}

/-- The value of a register; an absent one counts as zero. -/
def valueOf (rs : Registers) (id : Register) : UInt64 := (rs.get? id).getD 0

theorem narrow_valueOf_eq_iff : id.narrow (rs.valueOf id) = rs.valueOf id ↔ rs.Fits id :=
  Register.narrow_eq_iff

/-- The range of a register reads as the low bytes of its value. -/
theorem exists_readRange_range (rs : Registers) (id : Register) :
    ∃ bytes, (Artifact.registers rs).readRange id.range = .ok bytes ∧
      bytes = Bytes.ofWord (id.narrow (rs.valueOf id)).toNat id.width ∧
      id.decode bytes = (id.narrow (rs.valueOf id)).toNat := by
  have hword (value : Nat) : Bytes.ofWord (value % (1 <<< (8 * id.width))) id.width =
      Bytes.ofWord value id.width := by
    rw [← Bytes.word_ofWord, Bytes.ofWord_word (Bytes.size_ofWord ..)]
  refine ⟨_, id.readRange_range rs, ?_, ?_⟩
  · rw [slice_layout, id.toNat_narrow, hword]
    rfl
  · rw [slice_layout, Register.decode, Bytes.word_ofWord, id.toNat_narrow]
    rfl

/-! ## Narrowing -/

/-- The snapshot with each register narrowed to its width. -/
def narrowed (rs : Registers) : Registers where
  acmPolicyStatus := rs.acmPolicyStatus.map Register.acmPolicyStatus.narrow
  btgSacmInfo := rs.btgSacmInfo.map Register.btgSacmInfo.narrow
  txtErrorCode := rs.txtErrorCode.map Register.txtErrorCode.narrow

theorem get?_narrowed (rs : Registers) (id : Register) :
    rs.narrowed.get? id = (rs.get? id).map id.narrow := by
  cases id <;> rfl

theorem valueOf_narrowed (rs : Registers) (id : Register) :
    rs.narrowed.valueOf id = id.narrow (rs.valueOf id) := by
  rw [valueOf, valueOf, get?_narrowed]
  cases rs.get? id with
  | some value => rfl
  | none => cases id <;> rfl

theorem ext_get? {a b : Registers} (h : ∀ id, a.get? id = b.get? id) : a = b := by
  cases a
  cases b
  exact (mk.injEq ..).mpr ⟨h .acmPolicyStatus, h .btgSacmInfo, h .txtErrorCode⟩

/-- Narrowing changes a snapshot unless all registers fit. -/
theorem narrowed_eq_iff : rs.narrowed = rs ↔ ∀ id, rs.Fits id := by
  constructor
  · intro h id
    rw [← narrow_valueOf_eq_iff, ← valueOf_narrowed, h]
  · intro h
    refine ext_get? fun id => ?_
    have hfits := narrow_valueOf_eq_iff.mpr (h id)
    rw [get?_narrowed]
    cases hvalue : rs.get? id with
    | none => rfl
    | some value =>
      rw [valueOf, hvalue, Option.getD_some] at hfits
      rw [Option.map_some, hfits]

theorem fits_narrowed (rs : Registers) (id : Register) : rs.narrowed.Fits id := by
  have hpos : 0 < 1 <<< (8 * id.width) := by
    cases id <;> decide
  rw [Fits, ← valueOf, valueOf_narrowed, id.toNat_narrow]
  exact Nat.mod_lt _ hpos

theorem narrow_valueOf_narrowed (rs : Registers) (id : Register) :
    id.narrow (rs.narrowed.valueOf id) = rs.narrowed.valueOf id :=
  narrow_valueOf_eq_iff.mpr (rs.fits_narrowed id)

/-! ## Members -/

/-- The snapshot with members put in as they are, one after the other. -/
def putAll (rs : Registers) (members : List (Register × UInt64)) : Registers :=
  members.foldl (fun rs m => rs.put m.1 m.2) rs

/-- The snapshot with members set, one after the other. -/
def setAll (rs : Registers) (members : List (Register × UInt64)) : Registers :=
  members.foldl (fun rs m => rs.set m.1 m.2) rs

theorem narrowed_put (rs : Registers) (id : Register) (value : UInt64) :
    (rs.put id value).narrowed = rs.narrowed.set id value := by
  cases id <;> rfl

/-- Setting members instead of putting them in narrows the snapshot. -/
theorem setAll_narrowed (rs : Registers) (members : List (Register × UInt64)) :
    setAll rs.narrowed members = (putAll rs members).narrowed := by
  induction members generalizing rs with
  | nil => rfl
  | cons m rest ih =>
    rw [setAll, List.foldl_cons, ← narrowed_put]
    exact ih (rs.put m.1 m.2)

end Registers

/-! ## Texts -/

namespace Snapshot

/-- The register and the value that a member of an object stands for. -/
def member? (name : String) (value : Nat) : Option (Register × UInt64) :=
  if value < UInt64.size then (Register.ofName? name).map (·, value.toUInt64) else none

theorem put?_eq_map (rs : Registers) (name : String) (value : Nat) :
    put? rs name value = (member? name value).map fun m => rs.put m.1 m.2 := by
  rw [put?, member?]
  split
  · rw [Option.map_map]
    rfl
  · rfl

/-- The members that tokens stand for, up to the closing brace. -/
def memberList? : List Token → Option (List (Register × UInt64))
  | [.name name, .colon, .number value, .closeBrace] => (member? name value).map ([·])
  | .name name :: .colon :: .number value :: .comma :: rest => do
    return (← member? name value) :: (← memberList? rest)
  | _ => none

/-- Tokens put in the members that they stand for. -/
theorem members?_eq_map (rs : Registers) (tokens : List Token) :
    members? rs tokens = (memberList? tokens).map rs.putAll := by
  induction tokens using memberList?.induct generalizing rs with
  | case1 name value =>
    rw [members?, memberList?, put?_eq_map, Option.map_map]
    rfl
  | case2 name value rest ih =>
    rw [members?, memberList?, put?_eq_map]
    cases member? name value with
    | none => rfl
    | some m =>
      show members? (rs.put m.1 m.2) rest = _
      rw [ih]
      cases memberList? rest <;> rfl
  | case3 tokens hlast hmore =>
    rw [members?, memberList?]
    · rfl
    all_goals assumption

end Snapshot

namespace Registers

/-- The members of a text, in their order. -/
def membersOf? (text : String) : Option (List (Register × UInt64)) := do
  match ← Snapshot.tokens? text with
  | [.openBrace, .closeBrace] => return []
  | .openBrace :: rest => Snapshot.memberList? rest
  | _ => none

/-- A text puts in its members. -/
theorem ofText?_eq_map (text : String) : ofText? text = (membersOf? text).map (putAll {}) := by
  rw [ofText?, membersOf?, Option.bind_eq_bind, Option.bind_eq_bind, Option.map_bind]
  refine congrArg _ (funext fun tokens => ?_)
  split
  · rfl
  · simp only [Function.comp_apply, Snapshot.members?_eq_map]
  · simp only [Function.comp_apply, Option.map_none]

/-- A snapshot whose registers were set one after the other reads back what it has. A text puts its members in
where setting narrows them, which makes no difference to what the ranges read as; what they read as is the
value that the snapshot has for a register exactly if that value fits the register. -/
theorem reads_back (values : List (Register × UInt64)) (text : String) :
    (∀ id, ∃ bytes, (Artifact.registers (setAll {} values)).readRange id.range = .ok bytes ∧
      id.decode bytes = ((setAll {} values).valueOf id).toNat) ∧
    ∀ rs, ofText? text = some rs → ∃ members, membersOf? text = some members ∧
      rs = putAll {} members ∧ setAll {} members = rs.narrowed ∧
      (setAll {} members = rs ↔ ∀ id, rs.Fits id) ∧
      ∀ id, ∃ bytes, (Artifact.registers rs).readRange id.range = .ok bytes ∧
        (Artifact.registers (setAll {} members)).readRange id.range = .ok bytes ∧
        id.decode bytes = (id.narrow (rs.valueOf id)).toNat ∧
        (id.decode bytes = (rs.valueOf id).toNat ↔ rs.Fits id) := by
  have hset (members : List (Register × UInt64)) : setAll {} members = (putAll {} members).narrowed :=
    setAll_narrowed {} members
  refine ⟨fun id => ?_, fun rs h => ?_⟩
  · obtain ⟨bytes, hread, -, hdecode⟩ := (setAll {} values).exists_readRange_range id
    refine ⟨bytes, hread, hdecode.trans ?_⟩
    rw [hset, narrow_valueOf_narrowed]
  · rw [ofText?_eq_map] at h
    obtain ⟨members, hmembers, rfl⟩ := Option.map_eq_some_iff.mp h
    refine ⟨members, hmembers, rfl, hset members, ?_, fun id => ?_⟩
    · rw [hset, narrowed_eq_iff]
    · obtain ⟨bytes, hread, hbytes, hdecode⟩ := (putAll {} members).exists_readRange_range id
      obtain ⟨bytes', hread', hbytes', -⟩ := (setAll {} members).exists_readRange_range id
      have hsame : bytes' = bytes := by
        rw [hbytes', hbytes, hset, narrow_valueOf_narrowed, valueOf_narrowed]
      refine ⟨bytes, hread, hsame ▸ hread', hdecode, ?_⟩
      rw [hdecode, UInt64.toNat_inj, narrow_valueOf_eq_iff]

/-- A text with an error code that is wider than its register. -/
def wideText : String := "\x7b\"TXT_ERROR_CODE\": 4294967296\x7d"

/-- The snapshot that is read has the error code, and its range reads as zero. The snapshot in which the error
code is set has zero. -/
theorem reads_back_wideText :
    let set := setAll {} [(.txtErrorCode, 4294967296)]
    ∃ rs bytes, ofText? wideText = some rs ∧ rs.get? .txtErrorCode = some 4294967296 ∧
      (Artifact.registers rs).readRange Register.txtErrorCode.range = .ok bytes ∧
      Register.txtErrorCode.decode bytes = 0 ∧ set.get? .txtErrorCode = some 0 ∧ set ≠ rs := by
  have htext : ofText? wideText = some { txtErrorCode := some 4294967296 } := by decide +kernel
  have hmembers : membersOf? wideText = some [(.txtErrorCode, 4294967296)] := by decide +kernel
  obtain ⟨members, hmembers', -, -, hequal, hread⟩ := (reads_back [] wideText).2 _ htext
  obtain rfl := Option.some.inj (hmembers.symm.trans hmembers')
  obtain ⟨bytes, hbytes, -, hdecode, -⟩ := hread .txtErrorCode
  refine ⟨_, bytes, htext, rfl, hbytes, hdecode.trans (by decide), by decide, fun h => ?_⟩
  exact absurd (hequal.mp h .txtErrorCode) (by decide)

end Registers

end MeasuredBoot
