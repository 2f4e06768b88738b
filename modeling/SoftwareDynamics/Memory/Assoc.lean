import Mathlib.Data.Nat.ModEq
import SoftwareDynamics.Memory.Scrambled

/-! The associativity of caches in `memory.cc`: which set of a cache the pairs of a list are in, and
the sizes for which the measurements end.  What they time is left out. -/

namespace SoftwareDynamics.Memory

open ProofKit

section Program

/-- `AssocSetup` -/
def assocSetup (bufSizeBytes cacheSizeBytes : Nat) (buf : Buf Word) : Checked (Buf Word × Word) :=
  makeScrambledList bufSizeBytes cacheSizeBytes true buf

/-- `N_LOOPS` -/
def nLoops : Nat := 100 * 1024

/-- The clean read, and the dirty ones. -/
def assocReads (buf : Buf Word) (env : Word) (fetchesPerRead : Nat) : Checked Unit := do
  let _ ← assocRead buf env fetchesPerRead
  loop nLoops (fun _ _ => do
    let _ ← assocRead buf env fetchesPerRead
    return ()) ()

/-- The body of the loop of `MeasureL1CacheLevelAssoc`, for `assoc = 1 << i`. -/
def l1AssocRound (l1SizeBytes i : Nat) (buf : Buf Word) : Checked (Buf Word) := do
  let assoc := 1 <<< i
  let (buf, env) ← assocSetup maxCacheSizeB l1SizeBytes buf
  assocReads buf env assoc
  return buf

/-- `MeasureL1CacheLevelAssoc` -/
def measureL1CacheLevelAssoc (l1SizeBytes : Nat) : Checked Unit := do
  -- `assoc` is doubled while it is less than 128.
  let _ ← loop 7 (l1AssocRound l1SizeBytes) (.alloc (maxCacheSizeB / 8))
  return ()

def l1Assoc : Nat := 8

/-- The body of the loop of `MeasureL2CacheLevelAssoc`, for `assoc = 1 << i`. -/
def l2AssocRound (l1SizeBytes l2SizeBytes i : Nat) (buf : Buf Word) : Checked (Buf Word) := do
  let assoc := 1 <<< i
  let c := max (l1Assoc / assoc) 1
  let strideSizeBytes := if assoc < l1Assoc then l2SizeBytes / c else l2SizeBytes
  let (buf, env) ← assocSetup maxCacheSizeB strideSizeBytes buf
  assert (strideSizeBytes % l1SizeBytes = 0)
  assocReads buf env (max (assoc * c + 1) l1Assoc)
  return buf

/-- `MeasureL2CacheLevelAssoc` -/
def measureL2CacheLevelAssoc (l1SizeBytes l2SizeBytes : Nat) : Checked Unit := do
  let _ ← loop 7 (l2AssocRound l1SizeBytes l2SizeBytes) (.alloc (maxCacheSizeB / 8))
  return ()

/-- The set of an address, in a cache that picks it by the lowest bits above those of a line. -/
def cacheSet (lineLg setsLg address : Nat) : Nat := address / 2 ^ lineLg % 2 ^ setsLg

end Program

section Reads

variable {n : Nat} {buf : Buf Word} {w : Word}

theorem assocReads_read (h : assocReads buf w n = .ok ()) : ∃ u, assocRead buf w n = .ok u := by
  obtain ⟨u, hread, -⟩ := Checked.of_bind h
  exact ⟨u, hread⟩

theorem assocReads_ok (h : ∃ u, assocRead buf w n = .ok u) : assocReads buf w n = .ok () := by
  obtain ⟨u, hread⟩ := h
  have hloop (k : Nat) : loop k (fun _ _ => do
      let _ ← assocRead buf w n
      return ()) () = .ok () := by
    induction k with
    | zero => rfl
    | succ k ih =>
      rw [loop_succ, ih, Checked.ok_bind, hread]
      rfl
  rw [assocReads, hloop, hread]
  rfl

end Reads

section Sizes

/-- The sizes of caches, in units of the extra bit, for which all groups of a list are complete. -/
def groupedSizes : List Nat := [1, 2, 4, 5, 10, 20]

/-- A list whose elements are apart by multiples of the extra bit stays in its buffer only if its
last group is complete, has one element, or lacks one. -/
theorem LongListArgs.groups_of_inside {args : LongListArgs} (hlinear : args.makelinear = false)
    (hextra : args.useExtrabit = true) (hstride : 2 ^ 14 ∣ args.bytestride)
    (hsize : 2 ^ 14 ∣ args.bytesize)
    (hinside : ∀ i < args.elementCount, args.position i + 16 ≤ args.bytesize) :
    args.elementCount % 256 ≤ 1 ∨ args.elementCount % 256 = 255 := by
  by_contra hgroup
  have hin := hinside (256 * (args.elementCount / 256) + 1) (by omega)
  have hstart : args.start (256 * (args.elementCount / 256) + 1) =
      (256 * (args.elementCount / 256) + 255) * args.bytestride := by
    rw [start, nextelement_second]
  have hdvd := hstride.mul_left (256 * (args.elementCount / 256) + 255)
  rw [← hstart] at hdvd
  have := position_cases hlinear hextra (i := 256 * (args.elementCount / 256) + 1) (by omega)
  have hle : args.start (256 * (args.elementCount / 256) + 1) ≤ args.bytesize := by omega
  have hpair := args.pair_le
  rw [hstart, ← Nat.le_div_iff_mul_le (by omega)] at hle
  change _ ≤ args.elementCount at hle
  omega

variable {cacheSize : Nat} {buf : Buf Word}

theorem count_eq {m : Nat} : maxCacheSizeB / (m * 2 ^ 14) = 5120 / m := by
  rw [Nat.mul_comm, ← Nat.div_div_eq_div_mul]
  rfl

/-- Lists of two elements or more are made for few sizes. -/
theorem mem_groupedSizes {m : Nat} (hcount : 2 ≤ 5120 / m)
    (hgroup : 5120 / m % 256 ≤ 1 ∨ 5120 / m % 256 = 255) : m ∈ groupedSizes := by
  have hpos : 0 < m := by
    by_contra hzero
    obtain rfl : m = 0 := by omega
    rw [Nat.div_zero] at hcount
    omega
  have hle : m ≤ 20 := by
    have hmany : 255 * m ≤ 5120 := (Nat.le_div_iff_mul_le hpos).mp (by omega)
    omega
  have hfew : ∀ m ≤ 20, (5120 / m % 256 ≤ 1 ∨ 5120 / m % 256 = 255) → m ∈ 0 :: groupedSizes := by
    decide +kernel
  exact (List.mem_cons.mp (hfew m hle hgroup)).resolve_left (by omega)

/-- The setup, and a read of two elements or more, end for the strides for which all groups are
complete only. -/
theorem mem_of_assocSetup (hdvd : 2 ^ 14 ∣ cacheSize) (hsize : buf.size = maxCacheSizeB / 8)
    {r : Buf Word × Word} (hsetup : assocSetup maxCacheSizeB cacheSize buf = .ok r) {n : Nat}
    (hn : 2 ≤ n) (hread : ∃ w, assocRead r.1 r.2 n = .ok w) :
    asInt cacheSize / 2 ^ 14 ∈ groupedSizes := by
  have hdvd := dvd_asInt hdvd
  obtain ⟨-, ⟨hcall, hmake⟩ | hone⟩ := makeScrambledList_ok maxCacheSizeB_lt hsize hsetup
  swap
  · have hlength := (assocRead_ends_iff hone).mp hread
    rw [List.length_singleton] at hlength
    omega
  obtain ⟨s, hcut⟩ := (scrambledArgs hcall true).exists_cutAt
  have hsixteen : 16 ∣ asInt cacheSize := (by decide : 16 ∣ 2 ^ 14).trans hdvd
  have hvisits := makeLongList_visits hsixteen hcut hsize hmake
  have hlength := (assocRead_ends_iff hvisits).mp hread
  rw [List.length_map, List.length_range] at hlength
  have hinside := ((makeLongList_ok_iff hsize).mp hmake).1
  have hgroup := LongListArgs.groups_of_inside rfl rfl hdvd
    (by decide : 2 ^ 14 ∣ maxCacheSizeB) hinside
  obtain ⟨m, hm⟩ := hdvd
  have hcount : (scrambledArgs hcall true).elementCount = 5120 / m := by
    change maxCacheSizeB / asInt cacheSize = _
    rw [hm, Nat.mul_comm, count_eq]
  rw [hcount] at hlength hgroup
  rw [hm, Nat.mul_div_cancel_left m (by decide)]
  exact mem_groupedSizes (by omega) hgroup

/-- For these strides, the list has more elements than any read needs. -/
theorem assocSetup_reads (hdvd : 2 ^ 14 ∣ cacheSize)
    (hmem : asInt cacheSize / 2 ^ 14 ∈ groupedSizes) (hsize : buf.size = maxCacheSizeB / 8) :
    Yields (assocSetup maxCacheSizeB cacheSize buf) fun r => r.1.size = maxCacheSizeB / 8 ∧
      ∀ n ≤ 64, ∃ w, assocRead r.1 r.2 n = .ok w := by
  obtain ⟨m, hm⟩ := dvd_asInt hdvd
  rw [hm, Nat.mul_div_cancel_left m (by decide)] at hmem
  have hgroups : ∀ m ∈ groupedSizes, 1 ≤ m ∧ m ≤ 20 ∧ 256 ∣ 5120 / m ∧ 256 ≤ 5120 / m := by
    decide +kernel
  obtain ⟨hpos, hle, hgroup, hmany⟩ := hgroups m hmem
  have hcount : maxCacheSizeB / asInt cacheSize = 5120 / m := by rw [hm, Nat.mul_comm, count_eq]
  rw [← hcount] at hgroup
  have hcall : Callable maxCacheSizeB (asInt cacheSize) := by
    refine ⟨by omega, by omega, ?_, maxCacheSizeB_lt, fun i hi => ?_⟩
    · simp only [maxCacheSizeB]
      omega
    · have hnext : nextelement false i < maxCacheSizeB / asInt cacheSize :=
        nextelement_lt_of_mode (.inr ⟨rfl, rfl, hgroup⟩) hi
      calc nextelement false i * asInt cacheSize
          ≤ maxCacheSizeB / asInt cacheSize * asInt cacheSize :=
            Nat.mul_le_mul_right _ (Nat.le_of_lt hnext)
        _ ≤ maxCacheSizeB := Nat.div_mul_le_self _ _
        _ < 2 ^ 31 := maxCacheSizeB_lt
  have hdvd : 16 ∣ (scrambledArgs hcall true).bytestride := (by decide : 16 ∣ 2 ^ 14).trans ⟨m, hm⟩
  have hinside : ∀ i < (scrambledArgs hcall true).elementCount,
      (scrambledArgs hcall true).position i + 16 ≤ maxCacheSizeB := fun i hi =>
    LongListArgs.inside_of_groups rfl rfl hdvd (by decide : 2 ^ 15 ∣ maxCacheSizeB) hgroup hi
  have hmake := (makeLongList_ok_iff hsize).mpr ⟨hinside, rfl⟩
  obtain ⟨s, hcut⟩ := (scrambledArgs hcall true).exists_cutAt
  have hvisits := makeLongList_visits hdvd hcut hsize hmake
  have hrest : 64 ≤ (scrambledArgs hcall true).elementCount - s := by
    change 64 ≤ maxCacheSizeB / asInt cacheSize - s
    rw [hcount]
    by_cases hone : m = 1
    · subst hone
      have hs := hcut.le rfl rfl
      change s ≤ 256 * (2 ^ 14 / asInt cacheSize / 256) + 255 at hs
      rw [hm] at hs
      omega
    · obtain rfl := hcut.eq_zero rfl rfl (by change 2 ^ 14 < asInt cacheSize; omega)
      omega
  refine ⟨_, (makeScrambledList_eq maxCacheSizeB_lt hcall).trans hmake, ?_,
    fun n hn => (assocRead_ends_iff hvisits).mpr ?_⟩
  · rw [LongListArgs.built_size, hsize]
  · rw [List.length_map, List.length_range]
    omega

theorem l1AssocRound_size {l1 i : Nat} {buf' : Buf Word} (hsize : buf.size = maxCacheSizeB / 8)
    (h : l1AssocRound l1 i buf = .ok buf') : buf'.size = maxCacheSizeB / 8 := by
  obtain ⟨r, hsetup, hrest⟩ := Checked.of_bind h
  obtain ⟨_, -, hret⟩ := Checked.of_bind hrest
  obtain ⟨hsize', -⟩ := makeScrambledList_ok maxCacheSizeB_lt hsize hsetup
  cases hret
  exact hsize'

theorem l2AssocRound_size {l1 l2 i : Nat} {buf' : Buf Word} (hsize : buf.size = maxCacheSizeB / 8)
    (h : l2AssocRound l1 l2 i buf = .ok buf') : buf'.size = maxCacheSizeB / 8 := by
  obtain ⟨r, hsetup, hrest⟩ := Checked.of_bind h
  obtain ⟨_, -, hreads⟩ := Checked.of_bind hrest
  obtain ⟨_, -, hret⟩ := Checked.of_bind hreads
  obtain ⟨hsize', -⟩ := makeScrambledList_ok maxCacheSizeB_lt hsize hsetup
  cases hret
  exact hsize'

theorem asInt_mem_iff (size : Nat) :
    asInt size / 2 ^ 14 ∈ groupedSizes ↔ size % 2 ^ 32 / 2 ^ 14 ∈ groupedSizes := by
  have hfew : ∀ m ∈ groupedSizes, 1 ≤ m ∧ m ≤ 20 := by decide
  rw [asInt_eq]
  split
  · rfl
  · constructor
    · intro hmem
      have hpos := hfew _ hmem
      omega
    · intro hmem
      have hle := hfew _ hmem
      omega

/-- `MeasureL1CacheLevelAssoc` ends for six of the sizes that are multiples of 16 KiB, as an `int`
has them: for these, the buffer has room for complete groups of pairs that are one cache apart. -/
theorem measureL1CacheLevelAssoc_ends_iff {l1 : Nat} (hdvd : 2 ^ 14 ∣ l1) :
    measureL1CacheLevelAssoc l1 = .ok () ↔ l1 % 2 ^ 32 / 2 ^ 14 ∈ groupedSizes := by
  rw [← asInt_mem_iff]
  constructor
  · intro h
    obtain ⟨buf, hloop, -⟩ := Checked.of_bind h
    obtain ⟨-, hrounds⟩ := loop_rounds (fun b => b.size = maxCacheSizeB / 8) rfl
      (fun _ _ _ => l1AssocRound_size) hloop
    -- The round in which the associativity is 2.
    obtain ⟨b, b', hsize, hround⟩ := hrounds 1 (by decide)
    obtain ⟨r, hsetup, hrest⟩ := Checked.of_bind hround
    obtain ⟨⟨⟩, hreads, -⟩ := Checked.of_bind hrest
    exact mem_of_assocSetup hdvd hsize hsetup (Nat.le_refl 2) (assocReads_read hreads)
  · intro hmem
    obtain ⟨buf, hloop, -⟩ := @Yields.loop _ 7 (l1AssocRound l1) (.alloc (maxCacheSizeB / 8))
      (fun _ b => b.size = maxCacheSizeB / 8) rfl fun i b hi hsize => by
        have hassoc : 1 <<< i ≤ 64 := by
          rw [Nat.one_shiftLeft]
          exact Nat.pow_le_pow_right (by decide) (by omega : i ≤ 6)
        obtain ⟨r, hsetup, hsize', hreads⟩ := assocSetup_reads hdvd hmem hsize
        rw [l1AssocRound, hsetup, Checked.ok_bind]
        dsimp only
        rw [assocReads_ok (hreads _ hassoc), Checked.ok_bind]
        exact .pure hsize'
    rw [measureL1CacheLevelAssoc, hloop]
    rfl

theorem measureL1CacheLevelAssoc_ends : measureL1CacheLevelAssoc (32 * 1024) = .ok () :=
  (measureL1CacheLevelAssoc_ends_iff (by decide)).mpr (by decide)

/-- `MeasureL2CacheLevelAssoc` does not end for a multiple of 128 KiB, such as the size that `main`
passes: for one of its strides, the last group of pairs is not complete. -/
theorem measureL2CacheLevelAssoc_faults (l1 : Nat) {l2 : Nat} (hdvd : 2 ^ 17 ∣ l2) :
    measureL2CacheLevelAssoc l1 l2 ≠ .ok () := by
  intro h
  obtain ⟨buf, hloop, -⟩ := Checked.of_bind h
  obtain ⟨-, hrounds⟩ := loop_rounds (fun b => b.size = maxCacheSizeB / 8) rfl
    (fun _ _ _ => l2AssocRound_size) hloop
  -- The round in which the associativity is 8, and the stride is the size.
  obtain ⟨b, b', hsize, hround⟩ := hrounds 3 (by decide)
  obtain ⟨r, hsetup, hrest⟩ := Checked.of_bind hround
  obtain ⟨⟨⟩, -, hreads⟩ := Checked.of_bind hrest
  obtain ⟨⟨⟩, hread, -⟩ := Checked.of_bind hreads
  have hmem := mem_of_assocSetup ((by decide : 2 ^ 14 ∣ 2 ^ 17).trans hdvd) hsize hsetup
    (by decide) (assocReads_read hread)
  have hno : ∀ m ∈ groupedSizes, ¬8 ∣ m := by decide
  obtain ⟨k, hk⟩ := dvd_asInt hdvd
  exact hno _ hmem ⟨k, by omega⟩

theorem measureL2CacheLevelAssoc_faults_main :
    measureL2CacheLevelAssoc (32 * 1024) (256 * 1024) ≠ .ok () :=
  measureL2CacheLevelAssoc_faults (32 * 1024) (by decide)

end Sizes

section Sets

/-- A step of `2 ^ 14` leads to the same set if it is a multiple of the sets' size. -/
theorem cacheSet_add_iff {lineLg setsLg : Nat} (hline : lineLg ≤ 14) (address : Nat) :
    cacheSet lineLg setsLg (address + 2 ^ 14) = cacheSet lineLg setsLg address ↔
      lineLg + setsLg ≤ 14 := by
  have hpow : 2 ^ 14 = 2 ^ (14 - lineLg) * 2 ^ lineLg := by
    rw [← Nat.pow_add, Nat.sub_add_cancel hline]
  rw [cacheSet, cacheSet, hpow, Nat.add_mul_div_right _ _ (Nat.two_pow_pos lineLg)]
  constructor
  · intro h
    have hdvd : 2 ^ setsLg ∣ 2 ^ (14 - lineLg) := by
      rw [← Nat.modEq_zero_iff_dvd]
      exact Nat.ModEq.add_left_cancel' (address / 2 ^ lineLg) h
    have hle := (Nat.pow_dvd_pow_iff_le_right (by decide)).mp hdvd
    omega
  · intro hle
    have hdvd : 2 ^ setsLg ∣ 2 ^ (14 - lineLg) := Nat.pow_dvd_pow 2 (by omega)
    rw [Nat.add_mod, Nat.mod_eq_zero_of_dvd hdvd, Nat.add_zero, Nat.mod_mod]

/-- A step of a multiple of the sets' size leads to the same set. -/
theorem cacheSet_add_mul {lineLg setsLg : Nat} (address k : Nat) :
    cacheSet lineLg setsLg (address + k * 2 ^ (lineLg + setsLg)) =
      cacheSet lineLg setsLg address := by
  rw [cacheSet, cacheSet, Nat.add_comm lineLg, Nat.pow_add, ← Nat.mul_assoc,
    Nat.add_mul_div_right _ _ (Nat.two_pow_pos lineLg), Nat.add_mul_mod_self_right]

/-- The extra bit moves an element away from its place modulo the sets' size if this size is more
than `2 ^ 14`. -/
theorem cacheSet_position {args : LongListArgs} (hlinear : args.makelinear = false)
    (hextra : args.useExtrabit = true) {lineLg setsLg : Nat}
    (hstride : 2 ^ (lineLg + setsLg) ∣ args.bytestride) (hline : lineLg ≤ 14) (base : Nat) {i : Nat}
    (hi : i ≠ 0) :
    cacheSet lineLg setsLg (base + args.position i) = cacheSet lineLg setsLg (base + 2 ^ 14) := by
  obtain ⟨k, hk⟩ := hstride.mul_left (nextelement false i)
  change args.start i = _ at hk
  rw [Nat.mul_comm] at hk
  rcases LongListArgs.position_cases hlinear hextra hi with ⟨-, hup⟩ | ⟨hbit, hdown⟩
  · rw [hup, hk, Nat.add_comm (k * _), ← Nat.add_assoc, cacheSet_add_mul]
  · -- A place in the second half of each `2 ^ 15` bytes is no multiple of a larger size.
    have hle : lineLg + setsLg ≤ 14 := by
      by_contra hlt
      have hdvd : 2 ^ 15 ∣ args.start i := by
        rw [hk]
        exact (Nat.pow_dvd_pow 2 (by omega)).mul_left k
      omega
    rw [(cacheSet_add_iff hline base).mpr hle,
      ← (cacheSet_add_iff hline (base + args.position i)).mpr hle, Nat.add_assoc, hdown, hk,
      cacheSet_add_mul]

variable {bufSize stride n : Nat} {buf : Buf Word} {r : Buf Word × Word}

/-- The places of the pairs that the reads lead to.  All but the first one are in one set. -/
theorem assocSetup_places {lineLg setsLg : Nat} (hline : lineLg ≤ 14)
    (hstride : 2 ^ (lineLg + setsLg) ∣ stride) (hdvd : 16 ∣ stride) (hfits : bufSize < 2 ^ 31)
    (hsize : buf.size = bufSize / 8) (hsetup : assocSetup bufSize stride buf = .ok r)
    (hread : ∃ w, assocRead r.1 r.2 n = .ok w) (base : Nat) :
    ∃ place : Nat → Nat, place 0 = 0 ∧
      (∀ i < n, ∀ o, assocRead r.1 r.2 i = .ok (some o) ↔ place i = o) ∧
      ∀ i < n, i ≠ 0 →
        cacheSet lineLg setsLg (base + place i) = cacheSet lineLg setsLg (base + 2 ^ 14) := by
  obtain ⟨-, ⟨hcall, hmake⟩ | hone⟩ := makeScrambledList_ok hfits hsize hsetup
  · obtain ⟨s, hcut⟩ := (scrambledArgs hcall true).exists_cutAt
    have hvisits := makeLongList_visits (dvd_asInt (k := 4) hdvd) hcut hsize hmake
    have hlength := (assocRead_ends_iff hvisits).mp hread
    rw [List.length_map, List.length_range] at hlength
    -- The reads lead to the elements behind the one that is put on the first one.
    refine ⟨fun i => (scrambledArgs hcall true).position (s + i), hcut.atFirst, fun i hi o => ?_,
      fun i _ hpos => cacheSet_position rfl rfl (dvd_asInt hstride) hline base (by omega)⟩
    rw [assocRead_lt hvisits]
    simp only [List.length_map, List.length_range, List.getElem_map, List.getElem_range]
    exact ⟨fun h => h.2, fun h => ⟨by omega, h⟩⟩
  · have hlength := (assocRead_ends_iff hone).mp hread
    rw [List.length_singleton] at hlength
    refine ⟨fun _ => 0, rfl, fun i hi o => ?_, fun i hi hpos => by omega⟩
    obtain rfl : i = 0 := by omega
    rw [assocRead_lt hone]
    simp

/-- The comment of `AssocSetup` has all reads of a list end up in the set of the first one, where
the stride is a multiple of the sets' size.  All reads behind the first one share a set, and it is
that of the first one only if the sets' size is at most that of the extra bit. -/
theorem assocRead_sameSet_iff {lineLg setsLg : Nat} (hline : lineLg ≤ 14)
    (hstride : 2 ^ (lineLg + setsLg) ∣ stride) (hdvd : 16 ∣ stride) (hfits : bufSize < 2 ^ 31)
    (hsize : buf.size = bufSize / 8) (hsetup : assocSetup bufSize stride buf = .ok r)
    (hread : ∃ w, assocRead r.1 r.2 n = .ok w) (base : Nat) :
    ((∀ i < n, ∃ o, assocRead r.1 r.2 i = .ok (some o)) ∧
      (∀ i < n, ∀ j < n, ∀ o o', i ≠ 0 → j ≠ 0 → assocRead r.1 r.2 i = .ok (some o) →
        assocRead r.1 r.2 j = .ok (some o') →
        cacheSet lineLg setsLg (base + o) = cacheSet lineLg setsLg (base + o'))) ∧
      ((∀ i < n, ∀ o, assocRead r.1 r.2 i = .ok (some o) →
        cacheSet lineLg setsLg (base + o) = cacheSet lineLg setsLg base) ↔
          lineLg + setsLg ≤ 14 ∨ n ≤ 1) := by
  obtain ⟨place, hfirst, hplace, hset⟩ :=
    assocSetup_places hline hstride hdvd hfits hsize hsetup hread base
  refine ⟨⟨fun i hi => ⟨_, (hplace i hi _).mpr rfl⟩, ?_⟩, ?_, ?_⟩
  · intro i hi j hj o o' hizero hjzero ho ho'
    rw [← (hplace i hi o).mp ho, ← (hplace j hj o').mp ho', hset i hi hizero, hset j hj hjzero]
  · intro hall
    by_cases hn : n ≤ 1
    · exact .inr hn
    · have hsecond := hall 1 (by omega) _ ((hplace 1 (by omega) _).mpr rfl)
      rw [hset 1 (by omega) Nat.one_ne_zero] at hsecond
      exact .inl ((cacheSet_add_iff hline base).mp hsecond)
  · intro hcond i hi o ho
    obtain rfl := (hplace i hi o).mp ho
    by_cases hzero : i = 0
    · rw [hzero, hfirst, Nat.add_zero]
    · rw [hset i hi hzero]
      exact (cacheSet_add_iff hline base).mpr (hcond.resolve_right (by omega))

/-- In a cache of 512 sets of 64-byte lines, the first pair of a list with strides of 32 KiB is in
another set than those that follow it. -/
theorem assocRead_sameSet_apart : ∃ r,
    assocSetup maxCacheSizeB (32 * 1024) (.alloc (maxCacheSizeB / 8)) = .ok r ∧
      ¬∀ i < 9, ∀ o, assocRead r.1 r.2 i = .ok (some o) →
        cacheSet 6 9 (4096 + o) = cacheSet 6 9 4096 := by
  obtain ⟨r, hsetup, -, hreads⟩ :=
    @assocSetup_reads (32 * 1024) (.alloc (maxCacheSizeB / 8)) (by decide) (by decide) rfl
  have hsame := assocRead_sameSet_iff (by decide) (by decide : 2 ^ (6 + 9) ∣ 32 * 1024) (by decide)
    maxCacheSizeB_lt rfl hsetup (hreads 9 (by decide)) 4096
  refine ⟨r, hsetup, fun hall => ?_⟩
  exact absurd (hsame.2.mp hall) (by decide)

end Sets

end SoftwareDynamics.Memory
