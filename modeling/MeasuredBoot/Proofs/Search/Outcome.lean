import MeasuredBoot.Proofs.Bytes.Sphere
import MeasuredBoot.Proofs.Search.Shell

/-!
# How a search ends

A search goes through the shells of growing Hamming distance up to one that it cannot pass. This is up to the
shell alone, whoever does the work and in whichever order: its combinations can be numbered, all its workers
get a context, and all byte strings at its distance are rejected (`Passes`).

Contexts are asked for by the number of calls before, one for each worker in the order of the pieces. As any
call may fail, it does not matter in which order the workers really ask: another order is that of another
search, where the same workers get no context.

* `vacancies`, `messages`: the pieces of a shell whose workers get no context, and what is reported of them;
* `shell_finds`: one shell with a full crew, for every order of steps;
* `shellSize_exact`: which shells are small enough to be searched;
* `Ends`: what a search returns that ends at a shell;
* `runShells_concludes`: a range of shells, by induction on the number of shells left;
* `run_concludes`: the whole search.
-/

namespace MeasuredBoot.Search

open Combination (Chooses unrank unrank_spec unrank_weight weight weight_lt)

variable {σ : Type}

/-- All byte strings at a distance from the initial one are rejected. -/
def RejectsAt (s : Search σ) (accepts : ByteArray → Bool) (distance : Nat) : Prop :=
  ∀ data : ByteArray, data.size = s.initial.size → Bytes.distance s.initial data = distance →
    accepts data = false

/-- A combination of bits with which flipped the initial byte string is accepted. -/
structure Matches (s : Search σ) (accepts : ByteArray → Bool) (distance : Nat) (c : Combination) :
    Prop where
  chooses : Chooses c distance s.bits
  accepted : accepts (Bytes.flipBits c s.initial) = true

/-- No match of the distance has a lower number. -/
def LeastMatch (s : Search σ) (accepts : ByteArray → Bool) (distance : Nat) (c : Combination) : Prop :=
  ∀ other, s.Matches accepts distance other → weight 0 c ≤ weight 0 other

section

variable {s : Search σ} {accepts : ByteArray → Bool} {distance : Nat}

/-- The byte strings at a distance are the candidates of its shell. -/
theorem exists_candidate (hfit : ProductsFit s.bits distance) {data : ByteArray}
    (hsize : data.size = s.initial.size) (hdist : Bytes.distance s.initial data = distance) :
    ∃ id < s.bits.choose distance, s.candidate distance id = data := by
  have hc : Chooses (Bytes.differing s.initial data) distance s.bits := Bytes.chooses_differing hdist
  refine ⟨_, weight_lt hc, ?_⟩
  rw [candidate, unrank_weight hfit hc, Bytes.flipBits_differing hsize.symm]

theorem rejectsAt_of_candidates (hfit : ProductsFit s.bits distance)
    (h : ∀ id < s.bits.choose distance, accepts (s.candidate distance id) = false) :
    s.RejectsAt accepts distance := by
  intro data hsize hdist
  obtain ⟨id, hid, rfl⟩ := exists_candidate hfit hsize hdist
  exact h id hid

/-- The bits in which a candidate differs from the initial byte string. -/
theorem differing_candidate (hfit : ProductsFit s.bits distance) {id : Nat}
    (hid : id < s.bits.choose distance) :
    Bytes.differing s.initial (s.candidate distance id) = unrank id distance s.bits := by
  have hc := (unrank_spec hfit hid).1
  exact Bytes.differing_flipBits hc.ascending hc.below

theorem distance_candidate (hfit : ProductsFit s.bits distance) {id : Nat}
    (hid : id < s.bits.choose distance) :
    Bytes.distance s.initial (s.candidate distance id) = distance := by
  rw [Bytes.distance, differing_candidate hfit hid]
  exact (unrank_spec hfit hid).1.length_eq

theorem RejectsAt.candidate (h : s.RejectsAt accepts distance) (hfit : ProductsFit s.bits distance) {id : Nat}
    (hid : id < s.bits.choose distance) : accepts (s.candidate distance id) = false :=
  h _ (Bytes.size_flipBits ..) (distance_candidate hfit hid)

theorem Matches.not_rejectsAt {c : Combination} (h : s.Matches accepts distance c) :
    ¬s.RejectsAt accepts distance := by
  intro hreject
  have hdist := Bytes.distance_flipBits h.chooses.ascending h.chooses.below
  have := hreject _ (Bytes.size_flipBits c s.initial) (hdist.trans h.chooses.length_eq)
  exact Bool.false_ne_true (this.symm.trans h.accepted)

/-- What a search of the shell of one distance finds, in every order of the workers' steps. -/
theorem shell_finds (hcheck : s.ChecksBy accepts) {count : Nat}
    (hshell : shellSize? s.bits distance = some count) {crew inits : Nat} (hcrew : 0 < crew)
    (hinit : ∀ i < crew, ∃ context, s.init (inits + i) = .ok context) (turns : List Turn) :
    ∃ workers, s.hire distance inits (Workforce.pieces count crew) = (workers, []) ∧
      let shell := Shell.run s turns { workers }
      (shell.found = none → s.RejectsAt accepts distance) ∧
      ∀ c, shell.found = some c →
        s.Matches accepts distance c ∧ (crew = 1 → s.LeastMatch accepts distance c) := by
  obtain ⟨hfit, hcount⟩ := shellSize?_eq_some hshell
  obtain ⟨workers, hhire, hlen, hstands⟩ :=
    hire_spec ((Workforce.length_pieces count crew).symm ▸ hinit) distance
  have hstop : ∀ piece ∈ Workforce.pieces count crew, piece.2 ≤ s.bits.choose distance :=
    fun piece hp => hcount ▸ Workforce.snd_le_of_mem_pieces hp
  have hinv := (inv_of_standsAt accepts hlen hstands).run hcheck hfit hstop turns
  refine ⟨workers, hhire, fun hnone => ?_, fun c hfound => ?_⟩
  · refine rejectsAt_of_candidates hfit fun id hid => ?_
    obtain ⟨piece, hp, hlo, hhi⟩ := Workforce.exists_piece hcrew (hcount ▸ hid)
    exact hinv.rejected (Shell.remaining_run s turns _) hnone hp hlo hhi
  · obtain ⟨piece, hp, id, hlo, hhi, rfl, haccept, hbefore⟩ := hinv.first c hfound
    obtain ⟨hc, hw⟩ := Combination.unrank_spec hfit (Nat.lt_of_lt_of_le hhi (hstop piece hp))
    refine ⟨⟨hc, haccept⟩, fun hone other hother => ?_⟩
    subst hone
    rw [Workforce.pieces_one, List.mem_singleton] at hp
    subst hp
    rw [hw]
    by_contra hlt
    have := hbefore (weight 0 other) (Nat.zero_le _) (by omega)
    rw [candidate, unrank_weight hfit hother.chooses] at this
    exact Bool.false_ne_true (this.symm.trans hother.accepted)

end

/-! ## The workers that get no context -/

/-- The number of the workers of a shell. The byte string itself is looked at by one. -/
def crewSize (s : Search σ) : Nat → Nat
  | 0 => 1
  | distance + 1 => s.workerCount (distance + 1) (s.bits.choose (distance + 1))

/-- The number of contexts that are asked for before those of a shell. -/
def initsBefore (s : Search σ) : Nat → Nat
  | 0 => 0
  | distance + 1 => s.initsBefore distance + s.crewSize distance

/-- The pieces of the workers of a shell. -/
def shares (s : Search σ) (distance : Nat) : List (Nat × Nat) :=
  Workforce.pieces (s.bits.choose distance) (s.crewSize distance)

/-- The pieces of a shell whose workers get no context, each one with the reason. -/
def vacancies (s : Search σ) (distance : Nat) : List ((Nat × Nat) × String) :=
  s.failing (s.initsBefore distance) (s.shares distance)

/-- What is reported of the workers of a shell that get no context, in the order of their pieces. -/
def messages (s : Search σ) (distance : Nat) : List String :=
  (s.vacancies distance).map fun (piece, reason) => pieceFailure piece reason

theorem crewSize_pos (s : Search σ) (distance : Nat) : 0 < s.crewSize distance := by
  cases distance with
  | zero => exact Nat.zero_lt_one
  | succ distance => exact s.workerCount_pos ..

@[simp] theorem length_shares (s : Search σ) (distance : Nat) :
    (s.shares distance).length = s.crewSize distance :=
  Workforce.length_pieces ..

theorem shares_eq (s : Search σ) {distance : Nat} (hpos : 0 < distance) : s.shares distance =
    Workforce.pieces (s.bits.choose distance) (s.workerCount distance (s.bits.choose distance)) := by
  obtain ⟨d, rfl⟩ := Nat.exists_eq_succ_of_ne_zero hpos.ne'
  rfl

theorem vacancies_eq_nil_iff {s : Search σ} {distance : Nat} : s.vacancies distance = [] ↔
    ∀ i < s.crewSize distance, ∃ context, s.init (s.initsBefore distance + i) = .ok context := by
  rw [vacancies, failing_eq_nil_iff, length_shares]

theorem vacancies_zero_eq_nil_iff {s : Search σ} :
    s.vacancies 0 = [] ↔ ∃ context, s.init 0 = .ok context := by
  simp only [vacancies_eq_nil_iff, crewSize, Nat.lt_one_iff, forall_eq]
  rfl

theorem messages_eq_nil_iff {s : Search σ} {distance : Nat} :
    s.messages distance = [] ↔ s.vacancies distance = [] :=
  List.map_eq_nil_iff

/-- Where all shells before a distance have a full crew, all their contexts were made. -/
theorem init_of_vacancies {s : Search σ} {distance : Nat} (h : ∀ d < distance, s.vacancies d = [])
    {calls : Nat} (hcalls : calls < s.initsBefore distance) : ∃ context, s.init calls = .ok context := by
  induction distance with
  | zero => exact absurd hcalls (Nat.not_lt_zero calls)
  | succ distance ih =>
    rw [initsBefore] at hcalls
    rcases Nat.lt_or_ge calls (s.initsBefore distance) with hlt | hge
    · exact ih (fun d hd => h d (Nat.lt_succ_of_lt hd)) hlt
    · have := vacancies_eq_nil_iff.mp (h distance (Nat.lt_succ_self distance)) (calls - s.initsBefore distance)
      rw [Nat.add_sub_cancel' hge] at this
      exact this (by omega)

/-! ## The size of a shell -/

/-- The size of a shell is the number of its combinations, as long as that number and one more are below half of
the 64-bit words; from there on the shell is refused. No number of 64 bits is lost on the way to it, where products
are larger than the number. -/
theorem shellSize_exact (bits distance : Nat) :
    (bits.choose distance + 1 < UInt64.size / 2 → shellSize bits distance = .ok (bits.choose distance)) ∧
    (UInt64.size / 2 ≤ bits.choose distance + 1 →
      shellSize bits distance = .error (.tooManyCombinations bits distance)) ∧
    (bits.choose distance < UInt64.size → binomial? bits distance = some (bits.choose distance)) := by
  refine ⟨fun h => ?_, fun h => ?_, fun h => (ProductsFit.of_choose_lt h).binomial?_eq⟩
  · have hlt : bits.choose distance < idBound := by
      rw [idBound]
      omega
    rw [shellSize, shellSize?_eq_ite, if_pos hlt]
  · have hge : ¬bits.choose distance < idBound := by
      rw [idBound]
      omega
    rw [shellSize, shellSize?_eq_ite, if_neg hge]

/-- One bit out of as many as a signed word can count, or one less; and the middle of a row, with a number of
64 bits. -/
theorem shellSize_exact_bounds :
    shellSize 9223372036854775807 1 = .error (.tooManyCombinations 9223372036854775807 1) ∧
    shellSize 9223372036854775806 1 = .ok 9223372036854775806 ∧
    binomial? 67 33 = some 14226520737620288370 := by
  have hmiddle : Nat.choose 67 33 = 14226520737620288370 := by
    rw [Nat.choose_eq_descFactorial_div_factorial]
    decide +kernel
  refine ⟨(shellSize_exact 9223372036854775807 1).2.1 ?_, ?_, ?_⟩
  · rw [Nat.choose_one_right]
    decide
  · rw [(shellSize_exact 9223372036854775806 1).1 (by rw [Nat.choose_one_right]; decide), Nat.choose_one_right]
  · rw [(shellSize_exact 67 33).2.2 (by rw [hmiddle]; decide), hmiddle]

/-! ## Shell after shell -/

/-- A search goes on after a shell that can be numbered, has a full crew and has no match. -/
structure Passes (s : Search σ) (accepts : ByteArray → Bool) (distance : Nat) : Prop where
  numbered : (shellSize? s.bits distance).isSome = true
  staffed : s.vacancies distance = []
  rejects : s.RejectsAt accepts distance

/-- What a search returns that ends at the shell of a distance. Whether a worker finds something does not
matter where another one gets no context. -/
inductive Ends (s : Search σ) (accepts : ByteArray → Bool) (distance : Nat) :
    Except SearchError (Option Combination) → Prop where
  | found {c : Combination} (numbered : (shellSize? s.bits distance).isSome = true)
      (staffed : s.vacancies distance = []) (isMatch : s.Matches accepts distance c)
      (least : s.crewSize distance = 1 → s.LeastMatch accepts distance c) : Ends s accepts distance (.ok (some c))
  | tooMany (overflow : shellSize? s.bits distance = none) :
      Ends s accepts distance (.error (.tooManyCombinations s.bits distance))
  | init {reason : String} (first : distance = 0) (failed : s.init 0 = .error reason) :
      Ends s accepts distance (.error (.init reason))
  | workers (later : 0 < distance) (numbered : (shellSize? s.bits distance).isSome = true)
      (vacant : s.vacancies distance ≠ []) :
      Ends s accepts distance (.error (.workers distance (s.messages distance)))

/-- What the shells from distance `first` up to, and without, `stop` lead to: they are all passed, or the
search ends at the first one that is not. -/
inductive Concludes (s : Search σ) (accepts : ByteArray → Bool) (first stop : Nat) :
    Except SearchError (Option Combination) → Prop where
  | passed (h : ∀ d, first ≤ d → d < stop → s.Passes accepts d) : Concludes s accepts first stop (.ok none)
  | ended {outcome : Except SearchError (Option Combination)} (distance : Nat) (lower : first ≤ distance)
      (upper : distance < stop) (before : ∀ d, first ≤ d → d < distance → s.Passes accepts d)
      (ends : s.Ends accepts distance outcome) : Concludes s accepts first stop outcome

section

variable {s : Search σ} {accepts : ByteArray → Bool} {distance first stop : Nat}
  {outcome : Except SearchError (Option Combination)}

theorem Ends.not_passes (h : s.Ends accepts distance outcome) : ¬s.Passes accepts distance := by
  intro hpass
  cases h with
  | found _ _ isMatch => exact isMatch.not_rejectsAt hpass.rejects
  | tooMany overflow =>
    have := hpass.numbered
    rw [overflow] at this
    cases this
  | init first failed =>
    subst first
    obtain ⟨context, hcontext⟩ := vacancies_zero_eq_nil_iff.mp hpass.staffed
    rw [failed] at hcontext
    cases hcontext
  | workers _ _ vacant => exact vacant hpass.staffed

/-- A search ends at the first shell that it does not pass. -/
theorem Concludes.ends (h : s.Concludes accepts first stop outcome) (hlower : first ≤ distance)
    (hupper : distance < stop) (hbefore : ∀ d, first ≤ d → d < distance → s.Passes accepts d)
    (hnot : ¬s.Passes accepts distance) : s.Ends accepts distance outcome := by
  cases h with
  | passed hall => exact absurd (hall distance hlower hupper) hnot
  | ended d lower upper before ends =>
    rcases Nat.lt_trichotomy d distance with hlt | rfl | hgt
    · exact absurd (hbefore d lower hlt) ends.not_passes
    · exact ends
    · exact absurd (before distance hlower hgt) hnot

/-- A shell that is passed, in front of others. -/
theorem Concludes.cons (hpass : s.Passes accepts first) (h : s.Concludes accepts (first + 1) stop outcome) :
    s.Concludes accepts first stop outcome := by
  have hcons {d : Nat} (hrest : ∀ d', first + 1 ≤ d' → d' < d → s.Passes accepts d') :
      ∀ d', first ≤ d' → d' < d → s.Passes accepts d' := by
    intro d' h₁ h₂
    rcases Nat.eq_or_lt_of_le h₁ with rfl | h₁
    · exact hpass
    · exact hrest d' h₁ h₂
  cases h with
  | passed hall => exact .passed (hcons hall)
  | ended d lower upper before ends => exact .ended d (Nat.le_of_succ_le lower) upper (hcons before) ends

/-- A shell with a full crew ends the search only if something is found. -/
theorem runShells_of_hire (hpos : 0 < distance) (hnumbered : (shellSize? s.bits distance).isSome = true)
    {inits : Nat} {workers : List (Worker σ)}
    (hhire : s.hire distance inits (s.shares distance) = (workers, [])) (contexts : List σ) (left : Nat) :
    s.runShells distance inits contexts (left + 1) =
      let shell := Shell.run s (s.turns distance) { workers }
      let contexts := contexts ++ shell.workers.map (·.context)
      match shell.found with
      | some c => ⟨.ok (some c), inits + s.crewSize distance, contexts⟩
      | none => s.runShells (distance + 1) (inits + s.crewSize distance) contexts left := by
  obtain ⟨count, hcount⟩ := Option.isSome_iff_exists.mp hnumbered
  obtain ⟨-, rfl⟩ := shellSize?_eq_some hcount
  rw [runShells, shellSize, hcount]
  dsimp only
  rw [← s.shares_eq hpos, hhire, length_shares]
  dsimp only
  cases (Shell.run s (s.turns distance) { workers }).found <;> rfl

/-- A shell without a full crew ends the search, whatever its other workers find. -/
theorem runShells_of_vacancies (hpos : 0 < distance)
    (hnumbered : (shellSize? s.bits distance).isSome = true) (hvacant : s.vacancies distance ≠ [])
    (contexts : List σ) (left : Nat) :
    (s.runShells distance (s.initsBefore distance) contexts (left + 1)).outcome =
      .error (.workers distance (s.messages distance)) := by
  obtain ⟨count, hcount⟩ := Option.isSome_iff_exists.mp hnumbered
  obtain ⟨-, rfl⟩ := shellSize?_eq_some hcount
  have hreasons : (s.hire distance (s.initsBefore distance) (s.shares distance)).2 = s.messages distance :=
    s.snd_hire ..
  obtain ⟨reason, reasons, hmessages⟩ := List.exists_cons_of_ne_nil (messages_eq_nil_iff.not.mpr hvacant)
  rw [runShells, shellSize, hcount]
  dsimp only
  rw [← s.shares_eq hpos, hreasons, hmessages]

/-- The shells that are left are searched in order up to the first one that is not passed. -/
theorem runShells_concludes (hcheck : s.ChecksBy accepts) {distance : Nat} (hpos : 0 < distance)
    (contexts : List σ) (left : Nat) : s.Concludes accepts distance (distance + left)
      (s.runShells distance (s.initsBefore distance) contexts left).outcome := by
  induction left generalizing distance contexts with
  | zero => exact .passed fun d h₁ h₂ => absurd h₁ (by omega)
  | succ left ih =>
    have hends {outcome : Except SearchError (Option Combination)} (h : s.Ends accepts distance outcome) :
        s.Concludes accepts distance (distance + (left + 1)) outcome :=
      .ended distance (Nat.le_refl _) (by omega) (fun d h₁ h₂ => absurd h₁ (by omega)) h
    cases hshell : shellSize? s.bits distance with
    | none =>
      rw [runShells, shellSize, hshell]
      exact hends (.tooMany hshell)
    | some count =>
      have hnumbered : (shellSize? s.bits distance).isSome = true := by
        rw [hshell]
        rfl
      by_cases hvacant : s.vacancies distance = []
      · obtain ⟨workers, hhire, hnone, hsome⟩ := shell_finds hcheck hshell (s.crewSize_pos distance)
          (vacancies_eq_nil_iff.mp hvacant) (s.turns distance)
        obtain ⟨-, rfl⟩ := shellSize?_eq_some hshell
        rw [runShells_of_hire hpos hnumbered hhire]
        dsimp only at hnone hsome ⊢
        cases hfound : (Shell.run s (s.turns distance) { workers }).found with
        | some c =>
          obtain ⟨hmatch, hleast⟩ := hsome c hfound
          exact hends (.found hnumbered hvacant hmatch hleast)
        | none =>
          have := ih (Nat.succ_pos distance)
            (contexts ++ (Shell.run s (s.turns distance) { workers }).workers.map (·.context))
          rw [show distance + 1 + left = distance + (left + 1) by omega] at this
          exact this.cons ⟨hnumbered, hvacant, hnone hfound⟩
      · rw [runShells_of_vacancies hpos hnumbered hvacant]
        exact hends (.workers hpos hnumbered hvacant)

end

/-- The shell of distance zero is numbered, whatever the byte string. -/
theorem isSome_shellSize?_zero (bits : Nat) : (shellSize? bits 0).isSome = true := by
  have hfit : ProductsFit bits 0 := fun j hj => absurd hj (by omega)
  rw [shellSize?, hfit.binomial?_eq, Nat.choose_zero_right]
  rfl

/-- A search goes through the shells from the byte string itself on. -/
theorem run_concludes {s : Search σ} {accepts : ByteArray → Bool} (hcheck : s.ChecksBy accepts)
    (maxDistance : Nat) :
    s.Concludes accepts 0 (min maxDistance s.bits + 1) (s.run maxDistance).outcome := by
  have hends {outcome : Except SearchError (Option Combination)} (h : s.Ends accepts 0 outcome) :
      s.Concludes accepts 0 (min maxDistance s.bits + 1) outcome :=
    .ended 0 (Nat.le_refl 0) (Nat.succ_pos _) nofun h
  rw [run]
  cases hcontext : s.init 0 with
  | error reason => exact hends (.init rfl hcontext)
  | ok context =>
    have haccept := hcheck context s.initial
    have hstaffed : s.vacancies 0 = [] := vacancies_zero_eq_nil_iff.mpr ⟨context, hcontext⟩
    dsimp only
    split
    · rename_i after hc
      rw [hc] at haccept
      exact hends (.found (isSome_shellSize?_zero s.bits) hstaffed ⟨.nil s.bits, haccept.symm⟩
        fun _ other _ => Nat.zero_le _)
    · rename_i after hc
      rw [hc] at haccept
      have hreject : s.RejectsAt accepts 0 := fun data hsize hdist => by
        rw [← Bytes.eq_of_distance_eq_zero hsize.symm hdist]
        exact haccept.symm
      have := runShells_concludes hcheck Nat.one_pos [after]
        (min maxDistance s.bits)
      rw [Nat.add_comm 1] at this
      exact this.cons ⟨isSome_shellSize?_zero s.bits, hstaffed, hreject⟩

end MeasuredBoot.Search
