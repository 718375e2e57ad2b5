import MeasuredBoot.Proofs.Search.Outcome

/-!
# What a search finds

Where a context can always be made, only a match or too many combinations end a search; `Finds` says what
follows for a range of shells:

* `run_finds`: the shells from the byte string itself on;
* `run_nearest`: a search finds a match at the least distance, finds nothing only if there is no match
  within the distance, and fails only at a shell with too many combinations, after smaller ones
  without a match.
-/

namespace MeasuredBoot.Search

open Combination (Chooses rank? rank?_eq weight)

variable {σ : Type}

/-! ## Shell after shell -/

/-- What the shells from distance `first` up to, and without, `stop` lead to: a match in the first
shell that has one, or nothing, or a failure at a shell that cannot be numbered. -/
def Finds (s : Search σ) (accepts : ByteArray → Bool) (first stop : Nat) :
    Except SearchError (Option Combination) → Prop
  | .ok (some c) => ∃ d, first ≤ d ∧ d < stop ∧ (shellSize? s.bits d).isSome = true ∧
      (∀ d', first ≤ d' → d' < d → s.RejectsAt accepts d') ∧ s.Matches accepts d c ∧
      ((∀ count, shellSize? s.bits d = some count → s.workerCount d count = 1) →
        s.LeastMatch accepts d c)
  | .ok none => ∀ d, first ≤ d → d < stop →
      (shellSize? s.bits d).isSome = true ∧ s.RejectsAt accepts d
  | .error e => ∃ d, first ≤ d ∧ d < stop ∧ e = .tooManyCombinations s.bits d ∧
      shellSize? s.bits d = none ∧
      ∀ d', first ≤ d' → d' < d → (shellSize? s.bits d').isSome = true ∧ s.RejectsAt accepts d'

/-- Where a context can always be made, no worker goes without. -/
theorem vacancies_of_init {s : Search σ} (hinit : ∀ calls, ∃ context, s.init calls = .ok context)
    (distance : Nat) : s.vacancies distance = [] :=
  vacancies_eq_nil_iff.mpr fun _ _ => hinit _

theorem Concludes.finds {s : Search σ} {accepts : ByteArray → Bool} {first stop : Nat}
    {outcome : Except SearchError (Option Combination)}
    (hinit : ∀ calls, ∃ context, s.init calls = .ok context)
    (h : s.Concludes accepts first stop outcome) : s.Finds accepts first stop outcome := by
  cases h with
  | passed hall =>
    intro d h₁ h₂
    exact ⟨(hall d h₁ h₂).numbered, (hall d h₁ h₂).rejects⟩
  | ended d lower upper before ends =>
    cases ends with
    | found numbered _ isMatch least =>
      refine ⟨d, lower, upper, numbered, fun d' h₁ h₂ => (before d' h₁ h₂).rejects, isMatch, fun hone => ?_⟩
      cases d with
      | zero => exact least rfl
      | succ d =>
        obtain ⟨count, hcount⟩ := Option.isSome_iff_exists.mp numbered
        obtain ⟨-, rfl⟩ := shellSize?_eq_some hcount
        exact least (hone _ hcount)
    | tooMany overflow =>
      exact ⟨d, lower, upper, rfl, overflow,
        fun d' h₁ h₂ => ⟨(before d' h₁ h₂).numbered, (before d' h₁ h₂).rejects⟩⟩
    | init _ failed =>
      obtain ⟨context, hcontext⟩ := hinit 0
      rw [failed] at hcontext
      cases hcontext
    | workers _ _ vacant => exact absurd (vacancies_of_init hinit d) vacant

/-- A search goes through the shells from the byte string itself on. -/
theorem run_finds {s : Search σ} {accepts : ByteArray → Bool} (hcheck : s.ChecksBy accepts)
    (hinit : ∀ calls, ∃ context, s.init calls = .ok context) (maxDistance : Nat) :
    s.Finds accepts 0 (min maxDistance s.bits + 1) (s.run maxDistance).outcome :=
  (run_concludes hcheck maxDistance).finds hinit

/-! ## The whole search -/

/-- A search finds ascending positions of existing bits, the flips of which are accepted, and nothing
nearer is; a single worker finds the combination of least number. It finds nothing exactly if all
byte strings within the distance are rejected and all shells can be numbered. It fails only at a
shell that cannot be numbered, after smaller ones without a match. -/
theorem run_nearest {s : Search σ} {accepts : ByteArray → Bool}
    (hcheck : ∀ context data, (s.check context data).1 = accepts data)
    (hinit : ∀ calls, ∃ context, s.init calls = .ok context) (maxDistance : Nat) :
    (∀ c, (s.run maxDistance).outcome = .ok (some c) →
      c.Pairwise (· < ·) ∧ (∀ i ∈ c, i < 8 * s.initial.size) ∧ c.length ≤ maxDistance ∧
      accepts (Bytes.flipBits c s.initial) = true ∧
      Bytes.differing s.initial (Bytes.flipBits c s.initial) = c ∧
      (∀ data : ByteArray, data.size = s.initial.size →
        Bytes.distance s.initial data < c.length → accepts data = false) ∧
      ((∀ count, shellSize? s.bits c.length = some count → s.workerCount c.length count = 1) →
        ∀ other, Chooses other c.length s.bits → accepts (Bytes.flipBits other s.initial) = true →
          ∃ id id', rank? c = some id ∧ rank? other = some id' ∧ id ≤ id')) ∧
    ((s.run maxDistance).outcome = .ok none ↔
      (∀ d ≤ min maxDistance s.bits, (shellSize? s.bits d).isSome = true) ∧
      ∀ data : ByteArray, data.size = s.initial.size →
        Bytes.distance s.initial data ≤ min maxDistance s.bits → accepts data = false) ∧
    ∀ e, (s.run maxDistance).outcome = .error e →
      ∃ d ≤ min maxDistance s.bits, e = .tooManyCombinations s.bits d ∧
        shellSize? s.bits d = none ∧ (∀ d' < d, (shellSize? s.bits d').isSome = true) ∧
        ∀ data : ByteArray, data.size = s.initial.size → Bytes.distance s.initial data < d →
          accepts data = false := by
  have hfinds := run_finds hcheck hinit maxDistance
  refine ⟨fun c hc => ?_, ⟨fun hnone => ?_, fun ⟨hsizes, hreject⟩ => ?_⟩, fun e he => ?_⟩
  · rw [hc] at hfinds
    obtain ⟨d, -, hd, hsome, hbefore, hmatch, hleast⟩ := hfinds
    have hc := hmatch.chooses
    obtain rfl := hc.length_eq
    refine ⟨hc.ascending, hc.below, by omega, hmatch.accepted,
      Bytes.differing_flipBits hc.ascending hc.below,
      fun data hsize hlt => hbefore _ (Nat.zero_le _) hlt data hsize rfl,
      fun hone other hother haccept => ?_⟩
    obtain ⟨count, hcount⟩ := Option.isSome_iff_exists.mp hsome
    have hfit := (shellSize?_eq_some hcount).1
    exact ⟨_, _, rank?_eq hfit hc, rank?_eq hfit hother, hleast hone other ⟨hother, haccept⟩⟩
  · rw [hnone] at hfinds
    refine ⟨fun d hd => (hfinds d (Nat.zero_le d) (by omega)).1, fun data hsize hdist => ?_⟩
    exact (hfinds _ (Nat.zero_le _) (Nat.lt_succ_of_le hdist)).2 data hsize rfl
  · match hout : (s.run maxDistance).outcome with
    | .ok none => rfl
    | .ok (some c) =>
      rw [hout] at hfinds
      obtain ⟨d, -, hd, -, -, hmatch, -⟩ := hfinds
      have hdist := Bytes.distance_flipBits hmatch.chooses.ascending hmatch.chooses.below
      rw [hmatch.chooses.length_eq] at hdist
      have := hreject _ (Bytes.size_flipBits c s.initial) (by omega)
      exact absurd (this.symm.trans hmatch.accepted) Bool.false_ne_true
    | .error e =>
      rw [hout] at hfinds
      obtain ⟨d, -, hd, -, hnone, -⟩ := hfinds
      have := hsizes d (by omega)
      rw [hnone] at this
      exact absurd this Bool.false_ne_true
  · rw [he] at hfinds
    obtain ⟨d, -, hd, rfl, hnone, hbefore⟩ := hfinds
    refine ⟨d, by omega, rfl, hnone, fun d' hd' => (hbefore d' (Nat.zero_le d') hd').1,
      fun data hsize hlt => (hbefore _ (Nat.zero_le _) hlt).2 data hsize rfl⟩

/-- Two bytes, to be changed to two others, by three workers that get in each other's way. -/
def ofTwoBytes : Search Unit where
  processors := 3
  minCandidates := 1
  turns := fun _ => [⟨2, false⟩, ⟨0, true⟩, ⟨1, false⟩, ⟨2, true⟩, ⟨7, true⟩, ⟨1, true⟩]
  initial := ⟨#[0x0f, 0xa0]⟩
  init := fun _ => .ok ()
  check := fun _ data => (data.data = #[0x07, 0xa4], ())

/-- The three workers find the two bits in which the bytes differ. -/
theorem run_nearest_ofTwoBytes :
    (∀ context data, (ofTwoBytes.check context data).1 = decide (data.data = #[0x07, 0xa4])) ∧
      (∀ calls, ∃ context, ofTwoBytes.init calls = .ok context) ∧
      (ofTwoBytes.run 2).outcome = .ok (some [3, 10]) := by
  have hcheck : ∀ context data,
      (ofTwoBytes.check context data).1 = decide (data.data = #[0x07, 0xa4]) := fun _ _ => rfl
  have hinit : ∀ calls, ∃ context, ofTwoBytes.init calls = .ok context := fun _ => ⟨(), rfl⟩
  refine ⟨hcheck, hinit, ?_⟩
  obtain ⟨hfound, hnone, hfailed⟩ := run_nearest hcheck hinit 2
  have hdiff : Bytes.differing ofTwoBytes.initial ⟨#[0x07, 0xa4]⟩ = [3, 10] := by decide
  match hout : (ofTwoBytes.run 2).outcome with
  | .ok (some c) =>
    obtain ⟨-, -, -, haccept, hc, -⟩ := hfound c hout
    have hbytes : _ = (⟨#[0x07, 0xa4]⟩ : ByteArray) := ByteArray.ext (of_decide_eq_true haccept)
    rw [hbytes, hdiff] at hc
    rw [hc]
  | .ok none =>
    have := (hnone.mp hout).2 ⟨#[0x07, 0xa4]⟩ rfl (by rw [Bytes.distance, hdiff]; decide)
    exact absurd this (by decide)
  | .error e =>
    obtain ⟨d, hd, -, hsize, -⟩ := hfailed e hout
    have hsizes : ∀ d ≤ 2, (shellSize? ofTwoBytes.bits d).isSome = true := by decide
    have := hsizes d hd
    rw [hsize] at this
    exact absurd this Bool.false_ne_true

end MeasuredBoot.Search
