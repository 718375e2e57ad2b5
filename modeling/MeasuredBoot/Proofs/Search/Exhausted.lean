import MeasuredBoot.Proofs.Search.Rejecting
import Mathlib.Data.List.Nodup

/-!
# Exhausted searches

A search by a check that rejects everything shows the check all byte strings of the right size within the
distance, and each of them once. Every shell is shared out among its workers without a gap or an overlap, the
numbers of a shell are those of the byte strings at its distance, and a worker goes through its piece number
by number.

* `Workforce.flatMap_pieces`: the pieces of a shell, put together;
* `Search.differing_candidate`, `Search.mem_shellCandidates_iff`: candidates and byte strings at a distance;
* `Search.recording`: the same search, whose contexts remember what the check was called with;
* `Search.shell_exhausted`: one shell, for every crew and every order of steps;
* `Search.run_exhausted`: the whole search.
-/

namespace MeasuredBoot

open Combination (rank? rank?_eq unrank unrank_spec)

/-- The pieces of a shell follow each other, from its first number to its last one. -/
theorem Workforce.flatMap_pieces {count workers : Nat} (hw : 0 < workers) :
    (pieces count workers).flatMap (fun piece => List.range' piece.1 (piece.2 - piece.1)) =
      List.range count := by
  obtain ⟨n, rfl⟩ := Nat.exists_eq_succ_of_ne_zero hw.ne'
  let size := count / (n + 1)
  let piece (i : Nat) : List Nat :=
    List.range' (i * size) ((if i + 1 = n + 1 then count else (i + 1) * size) - i * size)
  -- all pieces but the last one have the same size
  have hfront (k : Nat) (hk : k ≤ n) : (List.range k).flatMap piece = List.range' 0 (k * size) := by
    induction k with
    | zero => rw [Nat.zero_mul]; rfl
    | succ k ih =>
      have hpiece : piece k = List.range' (0 + k * size) size := by
        have hsize : (k + 1) * size - k * size = size := by rw [Nat.succ_mul, Nat.add_sub_cancel_left]
        show List.range' (k * size) _ = _
        rw [if_neg (by omega), hsize, Nat.zero_add]
      rw [List.range_succ, List.flatMap_append, ih (by omega), List.flatMap_singleton, hpiece,
        List.range'_append_1, Nat.succ_mul]
  have hlast : piece n = List.range' (0 + n * size) (count - n * size) := by
    show List.range' (n * size) _ = _
    rw [if_pos rfl, Nat.zero_add]
  have hle : n * size ≤ count := (Nat.mul_le_mul_right size n.le_succ).trans (Nat.mul_div_le count (n + 1))
  rw [pieces, List.flatMap_map]
  show (List.range (n + 1)).flatMap piece = List.range count
  rw [List.range_succ, List.flatMap_append, hfront n (Nat.le_refl n), List.flatMap_singleton, hlast,
    List.range'_append_1, Nat.add_sub_cancel' hle, List.range_eq_range']

namespace Search

variable {σ : Type} {s : Search σ} {distance id : Nat}

/-! ## Candidates and their numbers -/

theorem rank?_candidate (hfit : ProductsFit s.bits distance) (hid : id < s.bits.choose distance) :
    rank? (Bytes.differing s.initial (s.candidate distance id)) = some id := by
  obtain ⟨hc, hw⟩ := unrank_spec hfit hid
  rw [differing_candidate hfit hid, rank?_eq hfit hc, hw]

/-- All candidates of a shell, in the order of their numbers. -/
def shellCandidates (s : Search σ) (distance : Nat) : List ByteArray :=
  (List.range (s.bits.choose distance)).map (s.candidate distance)

theorem nodup_shellCandidates (hfit : ProductsFit s.bits distance) : (s.shellCandidates distance).Nodup := by
  refine List.Nodup.map_on (fun id hid id' hid' h => ?_) List.nodup_range
  have hrank := rank?_candidate hfit (List.mem_range.mp hid)
  rw [h, rank?_candidate hfit (List.mem_range.mp hid')] at hrank
  exact (Option.some.inj hrank).symm

theorem mem_shellCandidates_iff (hfit : ProductsFit s.bits distance) {data : ByteArray} :
    data ∈ s.shellCandidates distance ↔
      data.size = s.initial.size ∧ Bytes.distance s.initial data = distance := by
  rw [shellCandidates, List.mem_map]
  constructor
  · rintro ⟨id, hid, rfl⟩
    exact ⟨Bytes.size_flipBits .., distance_candidate hfit (List.mem_range.mp hid)⟩
  · rintro ⟨hsize, hdist⟩
    obtain ⟨id, hid, h⟩ := exists_candidate hfit hsize hdist
    exact ⟨id, List.mem_range.mpr hid, h⟩

/-- The workers of a crew have all candidates of the shell between them. -/
theorem flatten_candidates {crew : Nat} (hcrew : 0 < crew) :
    ((Workforce.pieces (s.bits.choose distance) crew).map (s.candidates distance)).flatten =
      s.shellCandidates distance := by
  rw [← List.flatMap_def, shellCandidates, ← Workforce.flatMap_pieces hcrew, List.map_flatMap]
  rfl

/-- Byte strings at one distance, the numbers of which follow each other. -/
def Consecutive (s : Search σ) (trace : List ByteArray) : Prop :=
  ∃ distance first, (∀ data ∈ trace, Bytes.distance s.initial data = distance) ∧
    trace.map (fun data => rank? (Bytes.differing s.initial data)) =
      (List.range' first trace.length).map some

theorem consecutive_candidates (hfit : ProductsFit s.bits distance) {piece : Nat × Nat}
    (hstop : piece.2 ≤ s.bits.choose distance) : s.Consecutive (s.candidates distance piece) := by
  have hid {id : Nat} (h : id ∈ List.range' piece.1 (piece.2 - piece.1)) : id < s.bits.choose distance := by
    have := List.mem_range'_1.mp h
    omega
  refine ⟨distance, piece.1, fun data hdata => ?_, ?_⟩
  · obtain ⟨id, h, rfl⟩ := List.mem_map.mp hdata
    exact distance_candidate hfit (hid h)
  · rw [candidates, List.length_map, List.length_range', List.map_map]
    exact List.map_congr_left fun id h => rank?_candidate hfit (hid h)

theorem consecutive_initial (s : Search σ) : s.Consecutive [s.initial] := by
  have hfit : ProductsFit s.bits 0 := fun j hj => absurd hj (Nat.not_lt_zero j)
  show s.Consecutive (s.candidates 0 (0, 1))
  exact consecutive_candidates hfit (Nat.le_of_eq (Nat.choose_zero_right s.bits).symm)

/-! ## All traces together -/

theorem shellCandidates_zero (s : Search σ) : s.shellCandidates 0 = [s.initial] := by
  rw [shellCandidates, Nat.choose_zero_right]
  rfl

/-- The candidates of all workers, put together, are those of one shell after the other. -/
theorem flatten_traces (s : Search σ) (maxDistance : Nat) :
    (s.traces maxDistance).flatten = (List.range (min maxDistance s.bits + 1)).flatMap s.shellCandidates := by
  have hshell (d : Nat) : (s.shellTraces d).flatten = s.shellCandidates d :=
    flatten_candidates (s.workerCount_pos d _)
  rw [traces, List.flatten_cons, ← List.flatMap_id, List.flatMap_assoc, List.range_eq_range',
    List.range'_succ, List.flatMap_cons, shellCandidates_zero]
  simp only [List.flatMap_id, hshell]

theorem nodup_traces {maxDistance : Nat} (hfit : ∀ d ≤ min maxDistance s.bits, ProductsFit s.bits d) :
    (s.traces maxDistance).flatten.Nodup := by
  have hle {d : Nat} (hd : d ∈ List.range (min maxDistance s.bits + 1)) : d ≤ min maxDistance s.bits :=
    Nat.lt_succ_iff.mp (List.mem_range.mp hd)
  rw [flatten_traces, List.nodup_flatMap]
  refine ⟨fun d hd => nodup_shellCandidates (hfit d (hle hd)), ?_⟩
  refine List.pairwise_lt_range.imp_of_mem fun {d d'} hd hd' hlt data hmem hmem' => ?_
  -- a byte string is at one distance only
  have hdist := ((mem_shellCandidates_iff (hfit d (hle hd))).mp hmem).2
  have hdist' := ((mem_shellCandidates_iff (hfit d' (hle hd'))).mp hmem').2
  omega

theorem mem_traces_iff {maxDistance : Nat} (hfit : ∀ d ≤ min maxDistance s.bits, ProductsFit s.bits d)
    {data : ByteArray} : data ∈ (s.traces maxDistance).flatten ↔
      data.size = s.initial.size ∧ Bytes.distance s.initial data ≤ min maxDistance s.bits := by
  rw [flatten_traces, List.mem_flatMap]
  constructor
  · rintro ⟨d, hd, hmem⟩
    have hle : d ≤ min maxDistance s.bits := Nat.lt_succ_iff.mp (List.mem_range.mp hd)
    obtain ⟨hsize, rfl⟩ := (mem_shellCandidates_iff (hfit d hle)).mp hmem
    exact ⟨hsize, hle⟩
  · rintro ⟨hsize, hle⟩
    have hmem := (mem_shellCandidates_iff (hfit _ hle)).mpr ⟨hsize, rfl⟩
    exact ⟨_, List.mem_range.mpr (Nat.lt_succ_of_le hle), hmem⟩

theorem consecutive_traces {maxDistance : Nat} (hfit : ∀ d ≤ min maxDistance s.bits, ProductsFit s.bits d) :
    ∀ trace ∈ s.traces maxDistance, s.Consecutive trace := by
  rw [traces]
  refine List.forall_mem_cons.mpr ⟨s.consecutive_initial, fun trace htrace => ?_⟩
  obtain ⟨d, hd, htrace⟩ := List.mem_flatMap.mp htrace
  obtain ⟨piece, hp, rfl⟩ := List.mem_map.mp htrace
  have hle : d ≤ min maxDistance s.bits := by
    have := List.mem_range'_1.mp hd
    omega
  exact consecutive_candidates (hfit d hle) (Workforce.snd_le_of_mem_pieces hp)

/-! ## What the check is called with -/

/-- The same search, except that a context also remembers all byte strings that the check was called with,
in order. -/
def recording (s : Search σ) : Search (σ × List ByteArray) where
  toWorkforce := s.toWorkforce
  initial := s.initial
  init := fun calls => (s.init calls).map (·, [])
  check := fun (context, asked) data =>
    ((s.check context data).1, (s.check context data).2, asked ++ [data])

/-- The byte strings that the check is called with, for each context that is made in a search: first for that
of the byte string itself, and then for those of the workers of all shells. -/
def asked (s : Search σ) (maxDistance : Nat) : List (List ByteArray) :=
  (s.recording.run maxDistance).contexts.map (·.2)

theorem ask_recording (context : σ) (before trace : List ByteArray) :
    s.recording.ask (context, before) trace = (s.ask context trace, before ++ trace) := by
  induction trace generalizing context before with
  | nil => exact congrArg (Prod.mk context) (List.append_nil before).symm
  | cons data rest ih =>
    rw [List.append_cons]
    exact ih (s.check context data).2 (before ++ [data])

theorem checks_recording {accepts : ByteArray → Bool} (hs : s.ChecksBy accepts) :
    s.recording.ChecksBy accepts :=
  fun context => hs context.1

variable {accepts : ByteArray → Bool} {start : Nat → σ}

theorem init_recording {calls : Nat} {context : σ} (h : s.init calls = .ok context) :
    s.recording.init calls = .ok (context, []) := by
  show (s.init calls).map (·, []) = _
  rw [h]
  rfl

theorem contextsAfter_recording (start : Nat → σ) (traces : List (List ByteArray)) :
    s.recording.contextsAfter (fun calls => (start calls, [])) traces =
      (s.contextsAfter start traces).zip traces := by
  refine List.ext_getElem ?_ fun i h₁ h₂ => ?_
  · rw [contextsAfter, contextsAfter, List.length_mapIdx, List.length_zip, List.length_mapIdx, min_self]
  · simp only [contextsAfter, List.getElem_mapIdx, List.getElem_zip, ask_recording, List.nil_append]

theorem map_fst_contextsAfter (start : Nat → σ) (traces : List (List ByteArray)) :
    (s.recording.contextsAfter (fun calls => (start calls, [])) traces).map (·.1) =
      s.contextsAfter start traces := by
  rw [contextsAfter_recording]
  exact List.map_fst_zip (by rw [contextsAfter, List.length_mapIdx])

theorem map_snd_contextsAfter (start : Nat → σ) (traces : List (List ByteArray)) :
    (s.recording.contextsAfter (fun calls => (start calls, [])) traces).map (·.2) = traces := by
  rw [contextsAfter_recording]
  exact List.map_snd_zip (by rw [contextsAfter, List.length_mapIdx])

/-- The traces are what the contexts of the search remember. -/
theorem run_recording (hcheck : s.ChecksBy accepts) {maxDistance : Nat}
    (hsizes : ∀ d ≤ min maxDistance s.bits, (shellSize? s.bits d).isSome = true)
    (hreject : ∀ d ≤ min maxDistance s.bits, s.RejectsAt accepts d)
    (hstart : ∀ calls < (s.traces maxDistance).length, s.init calls = .ok (start calls)) :
    s.recording.run maxDistance =
      ⟨.ok none, (s.traces maxDistance).length,
        s.recording.contextsAfter (fun calls => (start calls, [])) (s.traces maxDistance)⟩ :=
  run_of_rejects (s := s.recording) (checks_recording hcheck) hsizes hreject
    fun calls hcalls => init_recording (hstart calls hcalls)

/-- In the shell of a distance, whatever the crew is and in whichever order it works, the candidates of each
worker are consecutive, and together they are all byte strings at the distance, each of them once. -/
theorem shell_exhausted (hcheck : s.ChecksBy accepts) (hstart : ∀ calls, s.init calls = .ok (start calls))
    (hfit : ProductsFit s.bits distance) (hreject : s.RejectsAt accepts distance) {crew : Nat}
    (hcrew : 0 < crew) (inits : Nat) :
    ∃ workers, s.recording.hire distance inits (Workforce.pieces (s.bits.choose distance) crew) =
        (workers, []) ∧ ∀ turns : List Turn,
      let asked := (Shell.run s.recording turns { workers }).workers.map (·.context.2)
      (∀ trace ∈ asked, s.Consecutive trace) ∧ asked.flatten.Nodup ∧
      ∀ data, data ∈ asked.flatten ↔
        data.size = s.initial.size ∧ Bytes.distance s.initial data = distance := by
  let pieces := Workforce.pieces (s.bits.choose distance) crew
  have hcheck' : s.recording.ChecksBy accepts := checks_recording hcheck
  have hstop : ∀ piece ∈ pieces, piece.2 ≤ s.bits.choose distance :=
    fun piece hp => Workforce.snd_le_of_mem_pieces hp
  let context (calls : Nat) : σ × List ByteArray := (start calls, [])
  have hcontext : ∀ i < pieces.length, s.recording.init (inits + i) = .ok (context (inits + i)) :=
    fun i _ => init_recording (hstart (inits + i))
  let workers := pieces.mapIdx fun i piece =>
    Worker.ofIds s.recording (context (inits + i)) distance piece.1 piece.2
  refine ⟨workers, hire_eq hcontext distance, fun turns => ?_⟩
  have hasked : (Shell.run s.recording turns { workers }).workers.map (·.context.2) =
      pieces.map (s.candidates distance) := by
    have hcontexts := contexts_exhaust hcheck' context hfit hreject inits hstop
    have hstand : Shell.Stand s.recording distance { workers } := stand_ofIds s.recording _ distance crew
    rw [hstand.run_eq hcheck' hfit hreject, ← map_snd_contextsAfter (fun i => start (inits + i)) (pieces.map _)]
    exact List.map_map.symm.trans (congrArg (List.map (·.2)) hcontexts)
  dsimp only
  rw [hasked, flatten_candidates hcrew]
  refine ⟨fun trace htrace => ?_, nodup_shellCandidates hfit, fun data => mem_shellCandidates_iff hfit⟩
  obtain ⟨piece, hp, rfl⟩ := List.mem_map.mp htrace
  exact consecutive_candidates hfit (hstop piece hp)

/-- If the check rejects everything, a context can always be made and all shells can be numbered, a search
finds nothing. The check is called with every byte string of the right size within the distance, with each of
them once, and for each context with consecutive candidates. In every shell this holds of every crew and every
order of steps, and between two candidates the byte string of a worker is the initial one again. -/
theorem run_exhausted {s : Search σ} {maxDistance : Nat}
    (hreject : ∀ context data, (s.check context data).1 = false)
    (hinit : ∀ calls, ∃ context, s.init calls = .ok context)
    (hsizes : ∀ d ≤ min maxDistance s.bits, (shellSize? s.bits d).isSome = true) :
    (s.run maxDistance).outcome = .ok none ∧
    (s.recording.run maxDistance).contexts.map (·.1) = (s.run maxDistance).contexts ∧
    (s.asked maxDistance).flatten.Nodup ∧
    (∀ data, data ∈ (s.asked maxDistance).flatten ↔
      data.size = s.initial.size ∧ Bytes.distance s.initial data ≤ min maxDistance (8 * s.initial.size)) ∧
    (∀ trace ∈ s.asked maxDistance, s.Consecutive trace) ∧
    ∀ d ≤ min maxDistance s.bits, ∀ crew, 0 < crew → ∀ inits,
      let pieces := Workforce.pieces (s.bits.choose d) crew
      (∃ workers, s.hire d inits pieces = (workers, []) ∧ ∀ turns : List Turn,
        ∀ w ∈ (turns.foldl (Shell.step s) { workers }).workers, w.data = s.initial) ∧
      ∃ workers, s.recording.hire d inits pieces = (workers, []) ∧ ∀ turns : List Turn,
        let asked := (Shell.run s.recording turns { workers }).workers.map (·.context.2)
        (∀ trace ∈ asked, s.Consecutive trace) ∧ asked.flatten.Nodup ∧
        ∀ data, data ∈ asked.flatten ↔
          data.size = s.initial.size ∧ Bytes.distance s.initial data = d := by
  obtain ⟨start, hstart⟩ := Classical.skolem.mp hinit
  have hfit (d : Nat) (hd : d ≤ min maxDistance s.bits) : ProductsFit s.bits d := by
    obtain ⟨count, hcount⟩ := Option.isSome_iff_exists.mp (hsizes d hd)
    exact (shellSize?_eq_some hcount).1
  have hnone (d : Nat) : s.RejectsAt (fun _ => false) d := fun _ _ _ => rfl
  have hrun := run_of_rejects hreject hsizes (fun d _ => hnone d) fun calls _ => hstart calls
  have hrecorded := run_recording hreject hsizes (fun d _ => hnone d) fun calls _ => hstart calls
  have hasked : s.asked maxDistance = s.traces maxDistance := by
    rw [asked, hrecorded, map_snd_contextsAfter]
  rw [hasked, hrecorded, hrun]
  refine ⟨rfl, map_fst_contextsAfter .., nodup_traces hfit, fun data => mem_traces_iff hfit,
    consecutive_traces hfit, fun d hd crew hcrew inits => ?_⟩
  exact ⟨shell_restored hreject hstart (hfit d hd) (hnone d) crew inits,
    shell_exhausted hreject hstart (hfit d hd) (hnone d) hcrew inits⟩

/-- One byte and three workers that get in each other's way. A context counts the calls of the check. -/
def ofOneByte : Search Nat where
  processors := 3
  minCandidates := 1
  turns := fun _ => [⟨2, false⟩, ⟨0, true⟩, ⟨1, false⟩, ⟨2, true⟩, ⟨7, true⟩]
  initial := ⟨#[0xa0]⟩
  init := fun _ => .ok 0
  check := fun calls _ => (false, calls + 1)

theorem run_exhausted_ofOneByte :
    (ofOneByte.run 2).outcome = .ok none ∧ (ofOneByte.asked 2).flatten.Nodup ∧
      ⟨#[0xa5]⟩ ∈ (ofOneByte.asked 2).flatten ∧ ⟨#[0xa7]⟩ ∉ (ofOneByte.asked 2).flatten := by
  have hsizes : ∀ d ≤ min 2 ofOneByte.bits, (shellSize? ofOneByte.bits d).isSome = true := by decide
  obtain ⟨hnone, -, hnodup, hmem, -⟩ := run_exhausted (fun _ _ => rfl) (fun _ => ⟨0, rfl⟩) hsizes
  refine ⟨hnone, hnodup, (hmem _).mpr ⟨rfl, ?_⟩, fun h => absurd ((hmem _).mp h).2 ?_⟩
  · decide
  · decide

end Search

end MeasuredBoot
