import PsxRecomp.Lib.CInt

/-!
# `Runtime/XaResample.lean` — XA audio to 44.1 kHz

`xa_resample_to_44100` of `runtime/src/cdrom.c` turns the frames of an XA sector, 18900 or 37800 of them
a second, into frames of the SPU's rate. It walks over the input in steps of `rate / 44100`, kept as an
index and a phase, and interpolates between a frame and its successor. It multiplies the difference of
two samples with the phase in `int`: at phase 37800 a difference above 56811 overflows. C leaves the
result undefined; the model wraps it, as the compiled multiplication does.
-/

set_option autoImplicit false

namespace PsxRecomp.Xa

open List

open CInt (Fits wrap wrap_of_fits)

abbrev Sample := BitVec 16

structure Frame where
  left : Sample
  right : Sample
deriving DecidableEq, Repr, Inhabited

/-! ## 1. The code -/

/-- `XA_NATIVE_FRAMES` -/
def nativeFrames : Nat := 18 * 8 * 28

/-- `XA_MAX_44100_FRAMES` -/
def max44100Frames : Nat := 9408

/-- `(int16_t)(cur + ((next - cur) * phase) / 44100)`, in `int32_t` -/
def lerp (cur next : Sample) (phase : Nat) : Sample :=
  let product := wrap 32 (wrap 32 (next.toInt - cur.toInt) * phase)
  BitVec.ofInt 16 (wrap 32 (cur.toInt + product.tdiv 44100))

/-- `while (phase >= 44100)`, at most `fuel` times -/
def carry : Nat → Nat → Nat → Nat × Nat
  | 0, inPos, phase => (inPos, phase)
  | fuel + 1, inPos, phase =>
    if 44100 ≤ phase then carry fuel (inPos + 1) (phase - 44100) else (inPos, phase)

def frameAt (input : List Frame) (inPos phase : Nat) : Frame :=
  let nextPos := if inPos + 1 < input.length then inPos + 1 else inPos
  let cur := input.getD inPos default
  let next := input.getD nextPos default
  ⟨lerp cur.left next.left phase, lerp cur.right next.right phase⟩

/-- The loop of `xa_resample_to_44100` with room for `room` more frames: what it writes, and where in the
input it stops -/
def walk (input : List Frame) (rate : Nat) : Nat → Nat → Nat → List Frame × Nat
  | 0, inPos, _ => ([], inPos)
  | room + 1, inPos, phase =>
    if inPos < input.length then
      let (inPos', phase') := carry (phase + rate) inPos (phase + rate)
      let (out, last) := walk input rate room inPos' phase'
      (frameAt input inPos phase :: out, last)
    else ([], inPos)

/-- `xa_resample_to_44100` -/
def resample (input : List Frame) (rate maxFrames : Nat) : List Frame × Nat :=
  if input.length = 0 ∨ rate = 0 ∨ maxFrames = 0 then ([], 0) else walk input rate maxFrames 0 0

/-! ## 2. The walk -/

section
variable {input : List Frame} {rate : Nat}

theorem carry_eq (fuel inPos phase : Nat) (h : phase < 44100 * (fuel + 1)) :
    carry fuel inPos phase = (inPos + phase / 44100, phase % 44100) := by
  induction fuel generalizing inPos phase with
  | zero =>
    rw [carry, Nat.div_eq_of_lt (by omega), Nat.mod_eq_of_lt (by omega), Nat.add_zero]
  | succ fuel ih =>
    rw [carry]
    split_ifs with hphase
    · rw [ih _ _ (by omega), Prod.mk.injEq]
      exact ⟨by omega, by omega⟩
    · rw [Nat.div_eq_of_lt (by omega), Nat.mod_eq_of_lt (by omega), Nat.add_zero]

/-- How many frames come out: those whose position is in the input -/
def outFrames (n rate : Nat) : Nat := (n * 44100 + rate - 1) / rate

theorem lt_outFrames_iff {n i : Nat} (hrate : 0 < rate) : i < outFrames n rate ↔ i * rate / 44100 < n := by
  unfold outFrames
  rw [Nat.lt_div_iff_mul_lt hrate, Nat.div_lt_iff_lt_mul (by decide)]
  omega

/-- The walk is exact: output frame `i` is at `i * rate`, in units of a 44100th of a frame. -/
theorem walk_eq (input : List Frame) (hrate : 0 < rate) (room i : Nat) (hi : i ≤ outFrames input.length rate)
    (hroom : outFrames input.length rate ≤ i + room) :
    walk input rate room (i * rate / 44100) (i * rate % 44100) =
      ((List.range' i (outFrames input.length rate - i)).map fun j =>
          frameAt input (j * rate / 44100) (j * rate % 44100),
        outFrames input.length rate * rate / 44100) := by
  induction room generalizing i with
  | zero =>
    obtain rfl : i = outFrames input.length rate := by omega
    rw [walk, Nat.sub_self]
    rfl
  | succ room ih =>
    rw [walk]
    split_ifs with hpos
    · have hlt := (lt_outFrames_iff hrate).mpr hpos
      have hsucc : (i + 1) * rate = i * rate + rate := Nat.succ_mul i rate
      have hcarry : carry (i * rate % 44100 + rate) (i * rate / 44100) (i * rate % 44100 + rate) =
          ((i + 1) * rate / 44100, (i + 1) * rate % 44100) := by
        rw [carry_eq _ _ _ (by omega), hsucc, Prod.mk.injEq]
        exact ⟨by omega, by omega⟩
      have hlen : outFrames input.length rate - i = outFrames input.length rate - (i + 1) + 1 := by omega
      rw [hcarry]
      dsimp only
      rw [ih (i + 1) hlt (by omega), hlen, range'_succ, map_cons]
    · have hge : ¬ i < outFrames input.length rate := fun h => hpos ((lt_outFrames_iff hrate).mp h)
      obtain rfl : i = outFrames input.length rate := by omega
      rw [Nat.sub_self]
      rfl

def Rate (rate : Nat) : Prop := rate = 18900 ∨ rate = 37800

theorem outFrames_le (hrate : Rate rate) {n : Nat} (hn : n ≤ nativeFrames) :
    outFrames n rate ≤ max44100Frames := by
  have hn' : n ≤ 4032 := hn
  unfold outFrames max44100Frames
  obtain rfl | rfl := hrate <;> omega

theorem resample_eq (hrate : Rate rate) (h₁ : 1 ≤ input.length) (h₂ : input.length ≤ nativeFrames) :
    resample input rate max44100Frames =
      ((List.range (outFrames input.length rate)).map fun i =>
          frameAt input (i * rate / 44100) (i * rate % 44100),
        outFrames input.length rate * rate / 44100) := by
  have hpos : 0 < rate := by obtain rfl | rfl := hrate <;> decide
  have hmax : max44100Frames ≠ 0 := by decide
  rw [resample, if_neg (by omega), range_eq_range']
  have h := walk_eq input hpos max44100Frames 0 (Nat.zero_le _)
    (by rw [Nat.zero_add]; exact outFrames_le hrate h₂)
  rwa [Nat.zero_mul, Nat.zero_div, Nat.zero_mod, Nat.sub_zero] at h

/-! ## 3. The interpolation -/

/-- The sample a `phase / 44100` of the way from `cur` to `next` -/
def exact (cur next : Sample) (phase : Nat) : Int :=
  cur.toInt + ((next.toInt - cur.toInt) * phase).tdiv 44100

def Between (cur next : Sample) (v : Int) : Prop :=
  min cur.toInt next.toInt ≤ v ∧ v ≤ max cur.toInt next.toInt

theorem phase_cases (hrate : Rate rate) (i : Nat) :
    i * rate % 44100 ≤ 31500 ∨ i * rate % 44100 = 37800 := by
  obtain rfl | rfl := hrate <;> omega

section
variable {cur next : Sample} {phase : Nat}

theorem sample_bounds (s : Sample) : -32768 ≤ s.toInt ∧ s.toInt ≤ 32767 := by
  have hlo := BitVec.le_two_mul_toInt (x := s)
  have hhi := BitVec.two_mul_toInt_lt (x := s)
  omega

theorem tdiv_eq (p : Int) :
    (0 ≤ p → p.tdiv 44100 = p / 44100) ∧ (p ≤ 0 → p.tdiv 44100 = -(-p / 44100)) := by
  refine ⟨fun h => Int.tdiv_eq_ediv_of_nonneg h, fun h => ?_⟩
  rw [← Int.tdiv_eq_ediv_of_nonneg (by omega), Int.neg_tdiv, Int.neg_neg]

theorem step_bounds {d : Int} (hphase : phase < 44100) :
    (0 ≤ d → 0 ≤ (d * phase).tdiv 44100 ∧ (d * phase).tdiv 44100 ≤ d) ∧
      (d ≤ 0 → d ≤ (d * phase).tdiv 44100 ∧ (d * phase).tdiv 44100 ≤ 0) := by
  obtain ⟨hpos, hneg⟩ := tdiv_eq (d * phase)
  constructor
  · intro hd
    have h₀ : 0 ≤ d * phase := Int.mul_nonneg hd (Int.natCast_nonneg _)
    have h₁ : d * phase ≤ d * 44100 := Int.mul_le_mul_of_nonneg_left (by omega) hd
    omega
  · intro hd
    have h₀ : d * phase ≤ 0 := Int.mul_nonpos_of_nonpos_of_nonneg hd (Int.natCast_nonneg _)
    have h₁ : d * 44100 ≤ d * phase := Int.mul_le_mul_of_nonpos_left hd (by omega)
    omega

theorem toInt_lerp (cur next : Sample) (phase : Nat) : (lerp cur next phase).toInt =
    wrap 16 (cur.toInt + (wrap 32 ((next.toInt - cur.toInt) * phase)).tdiv 44100) := by
  have hcur := sample_bounds cur
  have hnext := sample_bounds next
  have hdiff : wrap 32 (next.toInt - cur.toInt) = next.toInt - cur.toInt :=
    wrap_of_fits (by decide) (CInt.fits_of_le (B := 65535) (by decide) ⟨by omega, by omega⟩)
  unfold lerp
  dsimp only
  rw [BitVec.toInt_ofInt, hdiff]
  generalize hp : wrap 32 ((next.toInt - cur.toInt) * phase) = p
  have hlo : -(2147483648 : Int) ≤ p := by
    rw [← hp]
    exact Int.le_bmod (by decide)
  have hhi : p < 2147483648 := by
    rw [← hp]
    exact Int.bmod_lt (by decide)
  obtain ⟨hpos, hneg⟩ := tdiv_eq p
  rw [wrap_of_fits (w := 32) (by decide) (CInt.fits_of_le (B := 100000) (by decide) _)]
  · rfl
  · rcases Int.le_total 0 p with h | h
    · rw [hpos h]
      omega
    · rw [hneg h]
      omega

theorem lerp_exact (hphase : phase < 44100) (hfit : Fits 32 ((next.toInt - cur.toInt) * phase)) :
    (lerp cur next phase).toInt = exact cur next phase ∧
      Between cur next (lerp cur next phase).toInt := by
  have hcur := sample_bounds cur
  have hnext := sample_bounds next
  obtain ⟨hup, hdown⟩ := step_bounds (d := next.toInt - cur.toInt) hphase
  have hbetween : Between cur next (exact cur next phase) := by
    unfold Between exact
    rcases Int.le_total 0 (next.toInt - cur.toInt) with h | h
    · have := hup h
      omega
    · have := hdown h
      omega
  have hbounds : -32768 ≤ exact cur next phase ∧ exact cur next phase < 32768 := by
    unfold Between at hbetween
    omega
  have heq : (lerp cur next phase).toInt = exact cur next phase := by
    rw [toInt_lerp, wrap_of_fits (by decide) hfit]
    exact wrap_of_fits (by decide) hbounds
  rw [heq]
  exact ⟨rfl, hbetween⟩

theorem lerp_overflow (h : 56811 < (next.toInt - cur.toInt).natAbs) :
    (lerp cur next 37800).toInt ≠ exact cur next 37800 := by
  have hcur := sample_bounds cur
  have hnext := sample_bounds next
  intro heq
  rw [toInt_lerp] at heq
  unfold exact at heq
  generalize hd : next.toInt - cur.toInt = d at h heq
  push_cast at heq
  have hwrap : wrap 32 (d * 37800) =
      if 0 ≤ d then d * 37800 - 4294967296 else d * 37800 + 4294967296 := by
    unfold wrap
    rw [Int.bmod_def]
    split_ifs <;> omega
  have hmod := Int.bmod_emod (x := cur.toInt + (wrap 32 (d * 37800)).tdiv 44100) (m := 2 ^ 16)
  rw [show Int.bmod _ _ = _ from heq, hwrap] at hmod
  -- the two differ by 97391 or 97392, which is no multiple of 65536
  obtain ⟨hpos, hneg⟩ := tdiv_eq (d * 37800)
  split_ifs at hmod with hd₀
  · obtain ⟨-, hneg'⟩ := tdiv_eq (d * 37800 - 4294967296)
    rw [hpos (by omega), hneg' (by omega)] at hmod
    have hoff : d * 37800 / 44100 - -(-(d * 37800 - 4294967296) / 44100) = 97391 ∨
        d * 37800 / 44100 - -(-(d * 37800 - 4294967296) / 44100) = 97392 := by omega
    generalize d * 37800 / 44100 = right at hmod hoff
    generalize -(-(d * 37800 - 4294967296) / 44100) = wrong at hmod hoff
    omega
  · obtain ⟨hpos', -⟩ := tdiv_eq (d * 37800 + 4294967296)
    rw [hneg (by omega), hpos' (by omega)] at hmod
    have hoff : (d * 37800 + 4294967296) / 44100 - -(-(d * 37800) / 44100) = 97391 ∨
        (d * 37800 + 4294967296) / 44100 - -(-(d * 37800) / 44100) = 97392 := by omega
    generalize -(-(d * 37800) / 44100) = right at hmod hoff
    generalize (d * 37800 + 4294967296) / 44100 = wrong at hmod hoff
    omega

theorem product_fits (h : phase ≤ 31500 ∨ phase = 37800 ∧ (next.toInt - cur.toInt).natAbs ≤ 56811) :
    Fits 32 ((next.toInt - cur.toInt) * phase) := by
  have hcur := sample_bounds cur
  have hnext := sample_bounds next
  obtain h | ⟨rfl, hdiff⟩ := h
  · exact CInt.fits_of_le (by decide)
      (CInt.mul_bounds (a := 65535) (c := 31500) ⟨by omega, by omega⟩ ⟨by omega, by omega⟩)
  · exact CInt.fits_of_le (by decide)
      (CInt.mul_bounds (a := 56811) (c := 37800) ⟨by omega, by omega⟩ ⟨by omega, by omega⟩)

end

/-! ## 4. Sectors -/

/-- The frame interpolated at `p`, and the one after it -/
def neighbours (input : List Frame) (p : Nat) : Frame × Frame :=
  (input.getD p default, input.getD (if p + 1 < input.length then p + 1 else p) default)

/-- Output frame `i` is the interpolation it should be, in both channels. -/
def Interpolated (input : List Frame) (rate i : Nat) (out : Frame) : Prop :=
  let (cur, next) := neighbours input (i * rate / 44100)
  let phase := i * rate % 44100
  (out.left.toInt = exact cur.left next.left phase ∧ Between cur.left next.left out.left.toInt) ∧
    (out.right.toInt = exact cur.right next.right phase ∧ Between cur.right next.right out.right.toInt)

/-- All of the input is used, the output has its length times `44100 / rate`, rounded up, and every frame
of it is interpolated. -/
structure Resampled (input : List Frame) (rate : Nat) (r : List Frame × Nat) : Prop where
  consumed : input.length ≤ r.2
  count : r.1.length = (input.length * 44100 + rate - 1) / rate
  frames : ∀ i (h : i < r.1.length), Interpolated input rate i (r.1.get ⟨i, h⟩)

/-- No jump of more than 56811 from a frame that is interpolated at phase 37800: one in six, at the lower
rate one in three -/
def Mild (input : List Frame) (rate : Nat) : Prop :=
  ∀ p, p + 1 < input.length → p % (rate / 6300) = 0 →
    ((input.getD (p + 1) default).left.toInt - (input.getD p default).left.toInt).natAbs ≤ 56811 ∧
    ((input.getD (p + 1) default).right.toInt - (input.getD p default).right.toInt).natAbs ≤ 56811

theorem last_phase_iff (hrate : Rate rate) (p : Nat) :
    (∃ i, i * rate / 44100 = p ∧ i * rate % 44100 = 37800) ↔ p % (rate / 6300) = 0 := by
  constructor
  · rintro ⟨i, hp, hphase⟩
    obtain rfl | rfl := hrate <;> omega
  · intro hp
    obtain rfl | rfl := hrate
    · exact ⟨(7 * p + 6) / 3, by omega, by omega⟩
    · exact ⟨(7 * p + 6) / 6, by omega, by omega⟩

/-- **Resampling is exact** for the sectors without jumps that overflow, and for no others. The 9408
frames of the output buffer are enough for every sector. -/
theorem resample_exact_iff (hrate : Rate rate) (h₁ : 1 ≤ input.length)
    (h₂ : input.length ≤ nativeFrames) :
    Resampled input rate (resample input rate max44100Frames) ↔ Mild input rate := by
  have hpos : 0 < rate := by obtain rfl | rfl := hrate <;> decide
  have hlen : (resample input rate max44100Frames).1.length = outFrames input.length rate := by
    rw [resample_eq hrate h₁ h₂, length_map, length_range]
  have hget (i : Nat) (h : i < (resample input rate max44100Frames).1.length) :
      (resample input rate max44100Frames).1.get ⟨i, h⟩ =
        frameAt input (i * rate / 44100) (i * rate % 44100) := by
    simp [resample_eq hrate h₁ h₂, get_eq_getElem, getElem_map, getElem_range]
  constructor
  · rintro ⟨-, -, hframes⟩ p hp hstride
    obtain ⟨i, hi, hphase⟩ := (last_phase_iff hrate p).mpr hstride
    have hlt : i < (resample input rate max44100Frames).1.length := by
      rw [hlen, lt_outFrames_iff hpos]
      omega
    have hframe := hframes i hlt
    rw [hget i hlt] at hframe
    simp only [Interpolated, neighbours, frameAt, hi, hphase, if_pos hp] at hframe
    constructor
    · by_contra hjump
      exact lerp_overflow (by omega) hframe.1.1
    · by_contra hjump
      exact lerp_overflow (by omega) hframe.2.1
  · intro hmild
    refine ⟨?_, hlen, fun i hi => ?_⟩
    · rw [resample_eq hrate h₁ h₂]
      have hlast := (lt_outFrames_iff (n := input.length)
        (i := outFrames input.length rate) hpos).not
      omega
    · rw [hget i hi]
      have hphase : i * rate % 44100 < 44100 := Nat.mod_lt _ (by decide)
      have hcases := phase_cases hrate i
      have hstride (h : i * rate % 44100 = 37800) : i * rate / 44100 % (rate / 6300) = 0 :=
        (last_phase_iff hrate _).mp ⟨i, rfl, h⟩
      simp only [Interpolated, neighbours, frameAt]
      split_ifs with hnext
      · have hjump := fun h => hmild _ hnext (hstride h)
        exact ⟨lerp_exact hphase (product_fits (hcases.imp_right fun h => ⟨h, (hjump h).1⟩)),
          lerp_exact hphase (product_fits (hcases.imp_right fun h => ⟨h, (hjump h).2⟩))⟩
      · -- the last frame is its own successor
        exact ⟨lerp_exact hphase (product_fits (hcases.imp_right fun h => ⟨h, by omega⟩)),
          lerp_exact hphase (product_fits (hcases.imp_right fun h => ⟨h, by omega⟩))⟩

/-- A block in which the left side rises and the right side falls -/
def slopes : List Frame := (List.range 4032).map fun i => ⟨BitVec.ofNat 16 (8 * i), BitVec.ofNat 16 (32767 - 8 * i)⟩

theorem resample_exact_slopes : slopes.length = nativeFrames ∧
    Resampled slopes 18900 (resample slopes 18900 max44100Frames) := by
  have hlen : slopes.length = 4032 := by simp [slopes]
  refine ⟨hlen, (resample_exact_iff (.inl rfl) (by omega) (by rw [hlen]; decide)).mpr fun p hp _ => ?_⟩
  rw [hlen] at hp
  have hget (q : Nat) (hq : q < 4032) :
      slopes.getD q default = ⟨BitVec.ofNat 16 (8 * q), BitVec.ofNat 16 (32767 - 8 * q)⟩ := by
    simp [slopes, getD_eq_getElem?_getD, hq]
  have hsmall (n : Nat) (hn : n < 32768) : (BitVec.ofNat 16 n).toInt = n := by
    rw [BitVec.toInt_eq_toNat_cond, BitVec.toNat_ofNat, Nat.mod_eq_of_lt (by omega), if_pos (by omega)]
  rw [hget p (by omega), hget (p + 1) hp]
  constructor <;> (rw [hsmall _ (by omega), hsmall _ (by omega)]; omega)

/-- From the lowest sample to the highest: six sevenths of the way are 23404, and the product that says so
is no `int`. -/
theorem extreme_neighbours_overflow :
    ¬ Fits 32 (((0x7FFF#16 : Sample).toInt - (0x8000#16 : Sample).toInt) * 37800) ∧
      exact 0x8000#16 0x7FFF#16 37800 = 23404 ∧
      (resample [⟨0x8000#16, 0#16⟩, ⟨0x7FFF#16, 0#16⟩] 37800 max44100Frames).1.map
        (fun frame => frame.left.toInt) = [-32768, -8450, 32767] := by
  decide +kernel

end

end PsxRecomp.Xa
