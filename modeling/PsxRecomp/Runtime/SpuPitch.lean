import PsxRecomp.Runtime.Spu

/-!
# `Runtime/SpuPitch.lean` — which sample a voice plays

A voice's program is a stream of samples: the blocks one after the other, with the jumps that their
flags ask for, 28 samples each (`stream`). At pitch `P` frame `n` should play sample `n * P / 4096`.
Nothing is lost in the bookkeeping: position and phase always add up to `n * P`. But the stepping loop
of `voice_next_sample` stops at the end of a block, and what is left of the phase has to wait for the
next frame, which plays the first sample of the new block although the position is beyond it.
-/

set_option autoImplicit false

namespace PsxRecomp.Spu

open BitVec

open Xa (Sample)

/-! ## 1. The stream -/

structure Playback where
  curAddr : Nat
  repeatAddr : Nat
  hist1 : Sample
  hist2 : Sample
  flags : BitVec 8

namespace Playback

/-- The address of the next block: the loop start, if the last block ends with a repeat -/
def blockAt (p : Playback) : Nat :=
  blockAddr (if p.flags.getLsbD 0 && p.flags.getLsbD 1 then p.repeatAddr % ramSize else p.curAddr)

def decode (ram : Ram) (p : Playback) : List Sample × Sample × Sample :=
  decodeSamples (blockFilter (ram p.blockAt)) (blockShift (ram p.blockAt)) (blockNibbles ram p.blockAt)
    p.hist1 p.hist2

def samples (ram : Ram) (p : Playback) : List Sample := (p.decode ram).1

/-- … and the program behind it -/
def next (ram : Ram) (p : Playback) : Playback :=
  { curAddr := (p.blockAt + 16) % ramSize
    repeatAddr := if (ram (p.blockAt + 1)).getLsbD 2 then p.blockAt else p.repeatAddr
    hist1 := (p.decode ram).2.1
    hist2 := (p.decode ram).2.2
    flags := ram (p.blockAt + 1) }

end Playback

/-- Sample number `k` of a program -/
def stream (ram : Ram) (p : Playback) (k : Nat) : Sample :=
  (((Playback.next ram)^[k / blockSamples] p).samples ram).getD (k % blockSamples) 0

def Voice.playback (v : Voice) : Playback := ⟨v.curAddr, v.repeatAddr, v.hist1, v.hist2, v.flags⟩

open Voice

theorem decodeBlock_follow (v : Voice) (ram : Ram) :
    (v.followFlags.decodeBlock ram).playback = v.playback.next ram ∧
      (v.followFlags.decodeBlock ram).samples = v.playback.samples ram ∧
      (v.followFlags.decodeBlock ram).sampleIdx = 0 ∧
      (v.followFlags.decodeBlock ram).phase = v.phase := by
  have haddr : blockAddr v.followFlags.curAddr = v.playback.blockAt := by
    unfold followFlags Playback.blockAt playback
    cases v.flags.getLsbD 0 <;> cases v.flags.getLsbD 1 <;> rfl
  have hrest : v.followFlags.hist1 = v.hist1 ∧ v.followFlags.hist2 = v.hist2 ∧
      v.followFlags.repeatAddr = v.repeatAddr ∧ v.followFlags.phase = v.phase := by
    unfold followFlags
    split_ifs <;> exact ⟨rfl, rfl, rfl, rfl⟩
  obtain ⟨hhist1, hhist2, hrepeat, hphase⟩ := hrest
  have hdecode : decodeSamples (blockFilter (ram v.playback.blockAt))
      (blockShift (ram v.playback.blockAt)) (blockNibbles ram v.playback.blockAt) v.hist1 v.hist2 =
      v.playback.decode ram := rfl
  unfold decodeBlock
  dsimp only
  rw [haddr, hhist1, hhist2, hrepeat, hdecode]
  exact ⟨rfl, rfl, rfl, hphase⟩

/-! ## 2. The stepping loop -/

theorem stepPhase_spec (fuel : Nat) : ∀ idx phase, idx < blockSamples → blockSamples ≤ idx + fuel →
    (stepPhase fuel idx phase).1 ≤ blockSamples ∧
      (stepPhase fuel idx phase).1 * 4096 + (stepPhase fuel idx phase).2 = idx * 4096 + phase ∧
      ((stepPhase fuel idx phase).2 < 4096 ∨ (stepPhase fuel idx phase).1 = blockSamples) := by
  induction fuel with
  | zero =>
    intro idx phase hidx hfuel
    omega
  | succ fuel ih =>
    intro idx phase hidx hfuel
    unfold stepPhase
    split_ifs with hphase hlast
    · dsimp only
      exact ⟨by omega, by omega, .inr (by omega)⟩
    · have hsum : (idx + 1) * 4096 + (phase - 0x1000) = idx * 4096 + phase := by omega
      obtain ⟨hle, htotal, hstop⟩ := ih (idx + 1) (phase - 0x1000) (by omega) (by omega)
      exact ⟨hle, htotal.trans hsum, hstop⟩
    · exact ⟨hidx.le, rfl, .inl (Nat.lt_of_not_le hphase)⟩

/-! ## 3. Positions -/

/-- The voice has position `pos` in the stream of `p`: it has decoded `m` blocks of it and is in the last
of them, or at its end. -/
structure Plays (ram : Ram) (p : Playback) (v : Voice) (m pos : Nat) : Prop where
  inBlock : v.sampleIdx ≤ blockSamples
  position : blockSamples * m + v.sampleIdx = pos + blockSamples
  program : v.playback = (Playback.next ram)^[m] p
  block : v.sampleIdx < blockSamples → v.samples = ((Playback.next ram)^[m - 1] p).samples ram

section
variable {ram : Ram} {p : Playback} {v : Voice} {m pos : Nat}

theorem Plays.refill (h : Plays ram p v m pos) :
    ∃ m, Plays ram p (v.refill ram) m pos ∧ (v.refill ram).sampleIdx < blockSamples := by
  unfold Voice.refill
  split_ifs with hend
  · obtain ⟨hprogram, hsamples, hidx, -⟩ := decodeBlock_follow v ram
    have hpos := h.position
    have hin := h.inBlock
    refine ⟨m + 1, ⟨by omega, by rw [Nat.mul_succ]; omega, ?_, fun _ => ?_⟩, by rw [hidx]; decide⟩
    · rw [hprogram, h.program, Function.iterate_succ_apply']
    · rw [hsamples, h.program, Nat.add_sub_cancel]
  · exact ⟨m, h, Nat.lt_of_not_le hend⟩

theorem refill_phase (v : Voice) (ram : Ram) : (v.refill ram).phase = v.phase := by
  unfold refill
  split_ifs
  · exact (decodeBlock_follow v ram).2.2.2
  · rfl

theorem Plays.inside (h : Plays ram p v m pos) (hidx : v.sampleIdx < blockSamples) :
    m = pos / blockSamples + 1 ∧ v.sampleIdx = pos % blockSamples := by
  have hpos := h.position
  unfold blockSamples at *
  omega

theorem Plays.rawSample (h : Plays ram p v m pos) (hidx : v.sampleIdx < blockSamples) :
    v.rawSample = stream ram p pos := by
  obtain ⟨hm, hin⟩ := h.inside hidx
  unfold Voice.rawSample stream
  rw [h.block hidx, ← hin, hm, Nat.add_sub_cancel]

theorem play_playback (v : Voice) (ram : Ram) (reg : Nat → BitVec 16) :
    (v.play ram reg).2.playback = (v.refill ram).playback := by
  unfold play fade advance
  dsimp only
  split_ifs <;> rfl

theorem Plays.play (h : Plays ram p v m pos) (hphase : v.phase < 4096) (reg : Nat → BitVec 16) {P : Nat}
    (hpitch : pitchOf (reg 2) = P) (hP : P ≤ 0x3FFF) :
    ∃ m' pos', Plays ram p (v.play ram reg).2 m' pos' ∧
      pos' * 4096 + (v.play ram reg).2.phase = pos * 4096 + v.phase + P ∧
      pos' ≤ blockSamples * (pos / blockSamples + 1) ∧
      ((v.play ram reg).2.phase < 4096 ∨ pos' = blockSamples * (pos / blockSamples + 1)) := by
  obtain ⟨m, hrefill, hidx⟩ := h.refill
  obtain ⟨hm, hin⟩ := hrefill.inside hidx
  have hmove := play_position v ram reg
  rw [refill_phase, hpitch, Nat.mod_eq_of_lt (by omega)] at hmove
  obtain ⟨hle, htotal, hstop⟩ :=
    stepPhase_spec blockSamples (v.refill ram).sampleIdx (v.phase + P) hidx (Nat.le_add_left _ _)
  rw [← hmove] at hle htotal hstop
  refine ⟨m, blockSamples * (pos / blockSamples) + (v.play ram reg).2.sampleIdx, ?_, ?_, ?_, ?_⟩
  · refine ⟨hle, ?_, ?_, fun _ => ?_⟩
    · rw [hm, Nat.mul_succ]
      omega
    · rw [play_playback, hrefill.program]
    · rw [play_samples, hrefill.block hidx]
  · have hpos := Nat.div_add_mod pos blockSamples
    rw [← hin] at hpos
    rw [Nat.add_mul, Nat.add_assoc, htotal, ← Nat.add_assoc, ← Nat.add_mul, hpos, Nat.add_assoc]
  · rw [Nat.mul_succ]
    omega
  · rw [Nat.mul_succ]
    omega

end

/-! ## 4. Frames -/

/-- The voice after `n` frames; `regs k` are its registers at frame `k` -/
def Voice.frames (ram : Ram) (regs : Nat → Nat → BitVec 16) : Nat → Voice → Voice
  | 0, v => v
  | n + 1, v => ((v.frames ram regs n).nextSample ram (regs n)).2

section
variable {ram : Ram} {regs : Nat → Nat → BitVec 16} {v : Voice}

theorem active_of_frames_succ {n : Nat} (h : (v.frames ram regs (n + 1)).active = true) :
    (v.frames ram regs n).active = true := by
  by_contra hidle
  unfold frames nextSample at h
  rw [if_neg hidle] at h
  exact hidle h

theorem frames_succ {n : Nat} (h : (v.frames ram regs n).active = true) :
    v.frames ram regs (n + 1) = ((v.frames ram regs n).play ram (regs n)).2 := by
  show ((v.frames ram regs n).nextSample ram (regs n)).2 = _
  unfold nextSample
  rw [if_pos h]

end

/-- At pitch `P` every frame that is played has the sample that its number asks for, and a phase below
one sample. -/
def PitchExact (P : Nat) : Prop :=
  ∀ (ram : Ram) (start loop : BitVec 16) (regs : Nat → Nat → BitVec 16),
    (∀ k, regs k 2 = BitVec.ofNat 16 P) → ∀ n,
      let v := (Voice.keyed start loop).frames ram regs n
      v.active = true →
        (v.refill ram).rawSample = stream ram (Voice.keyed start loop).playback (n * P / 4096) ∧
          (v.refill ram).phase < 4096

/-! ## 5. Overshoot -/

def blockUnits : Nat := 114688

section
variable {P : Nat}

theorem overshoot_le {n M : Nat} (hbefore : n * P < blockUnits * M) (hbehind : blockUnits * M ≤ (n + 1) * P) :
    (n + 1) * P - blockUnits * M ≤ P - Nat.gcd P blockUnits := by
  have hP : (n + 1) * P = n * P + P := Nat.succ_mul n P
  have hgP : Nat.gcd P blockUnits ∣ P := Nat.gcd_dvd_left _ _
  have hover : Nat.gcd P blockUnits ∣ (n + 1) * P - blockUnits * M :=
    Nat.dvd_sub (hgP.mul_left _) ((Nat.gcd_dvd_right _ _).mul_right _)
  have hrest : Nat.gcd P blockUnits ≤ P - ((n + 1) * P - blockUnits * M) :=
    Nat.le_of_dvd (by omega) (Nat.dvd_sub hgP hover)
  omega

theorem exists_overshoot (h : Nat.gcd P blockUnits < P) :
    ∃ n M, blockUnits * M = n * P + Nat.gcd P blockUnits := by
  rw [Nat.gcd_comm] at h ⊢
  obtain ⟨M, -, hM⟩ := Nat.exists_mul_mod_eq_gcd h
  refine ⟨blockUnits * M / P, M, ?_⟩
  have hdiv := Nat.div_add_mod (blockUnits * M) P
  rw [hM, Nat.mul_comm P] at hdiv
  exact hdiv.symm

theorem pitchOf_ofNat (hpos : 0 < P) (hP : P ≤ 0x3FFF) : pitchOf (BitVec.ofNat 16 P) = P := by
  have hmask : (BitVec.ofNat 16 P &&& 0x3FFF).toNat = P := by
    rw [toNat_and, toNat_ofNat, Nat.mod_eq_of_lt (by omega)]
    exact (Nat.and_two_pow_sub_one_eq_mod P 14).trans (Nat.mod_eq_of_lt (by omega))
  unfold pitchOf
  rw [hmask, if_neg (by omega)]

end

/-! ## 6. Exactness -/

section
variable {ram : Ram} {regs : Nat → Nat → BitVec 16} {p : Playback} {v : Voice} {n P : Nat}

structure OnTime (ram : Ram) (p : Playback) (P n : Nat) (v : Voice) : Prop where
  total : ∃ m pos, Plays ram p v m pos ∧ pos * 4096 + v.phase = n * P
  phase : v.phase < 4096

theorem OnTime.rawSample (h : OnTime ram p P n v) :
    (v.refill ram).rawSample = stream ram p (n * P / 4096) := by
  obtain ⟨⟨m, pos, hplays, htotal⟩, hphase⟩ := h
  obtain ⟨m, hrefill, hidx⟩ := hplays.refill
  rw [hrefill.rawSample hidx, ← htotal]
  congr 1
  omega

section
variable (h : OnTime ram p P n v) (reg : Nat → BitVec 16) (hpitch : pitchOf (reg 2) = P) (hP : P ≤ 0x3FFF)
include h hpitch hP

theorem OnTime.play :
    ∃ m pos, Plays ram p (v.play ram reg).2 m pos ∧ pos * 4096 + (v.play ram reg).2.phase = (n + 1) * P ∧
      pos ≤ blockSamples * (n * P / blockUnits + 1) ∧
      ((v.play ram reg).2.phase < 4096 ∨ pos = blockSamples * (n * P / blockUnits + 1)) := by
  obtain ⟨⟨m, pos, hplays, htotal⟩, hphase⟩ := h
  obtain ⟨m', pos', hplays', htotal', hle, hstop⟩ := hplays.play hphase reg hpitch hP
  have hblock : pos / blockSamples = n * P / blockUnits := by
    unfold blockSamples blockUnits
    omega
  rw [hblock] at hle hstop
  refine ⟨m', pos', hplays', ?_, hle, hstop⟩
  rw [Nat.succ_mul, ← htotal, htotal']

theorem OnTime.next (hsmall : P < 4096 + Nat.gcd P blockUnits) :
    OnTime ram p P (n + 1) (v.play ram reg).2 := by
  obtain ⟨m, pos, hplays, htotal, -, hstop⟩ := h.play reg hpitch hP
  refine ⟨⟨m, pos, hplays, htotal⟩, ?_⟩
  rcases hstop with hphase | hend
  · exact hphase
  · have hbefore : n * P < blockUnits * (n * P / blockUnits + 1) := Nat.lt_mul_div_succ _ (by decide)
    have hunits : pos * 4096 = blockUnits * (n * P / blockUnits + 1) := by
      rw [hend]
      unfold blockSamples blockUnits
      omega
    have hover := overshoot_le hbefore (by omega)
    omega

theorem OnTime.held_up {M : Nat} (hM : blockUnits * M = n * P + Nat.gcd P blockUnits)
    (hlarge : 4096 + Nat.gcd P blockUnits ≤ P) : 4096 ≤ (v.play ram reg).2.phase := by
  obtain ⟨m, pos, -, htotal, hle, -⟩ := h.play reg hpitch hP
  have hgcd : 0 < Nat.gcd P blockUnits := Nat.gcd_pos_of_pos_right _ (by decide)
  -- the frame before is in the last block that ends at `M`
  have hblock : n * P / blockUnits + 1 = M := by
    unfold blockUnits at *
    omega
  have hunits : pos * 4096 ≤ blockUnits * M := by
    unfold blockSamples at hle
    unfold blockUnits
    omega
  have hsucc : (n + 1) * P = n * P + P := Nat.succ_mul n P
  omega

end

theorem onTime_keyed (ram : Ram) (start loop : BitVec 16) (P : Nat) :
    OnTime ram (Voice.keyed start loop).playback P 0 (Voice.keyed start loop) :=
  ⟨⟨0, 0, ⟨le_rfl, rfl, rfl, fun h => absurd h (lt_irrefl _)⟩, by rw [Nat.zero_mul P]; rfl⟩, Nat.zero_lt_succ _⟩

theorem onTime_frames (start loop : BitVec 16) (hpitch : ∀ k, pitchOf (regs k 2) = P) (hP : P ≤ 0x3FFF)
    (hsmall : P < 4096 + Nat.gcd P blockUnits) (n : Nat) :
    ((Voice.keyed start loop).frames ram regs n).active = true →
      OnTime ram (Voice.keyed start loop).playback P n ((Voice.keyed start loop).frames ram regs n) := by
  induction n with
  | zero => exact fun _ => onTime_keyed ram start loop P
  | succ n ih =>
    intro hactive
    have hbefore := active_of_frames_succ hactive
    rw [frames_succ hbefore]
    exact (ih hbefore).next (regs n) (hpitch n) hP hsmall

/-! ### A program that does not end -/

theorem endless_frames (regs : Nat → Nat → BitVec 16) (n : Nat) :
    Endless ((Voice.keyed 0 0).frames (fun _ => 0) regs n) := by
  induction n with
  | zero => exact ⟨rfl, rfl, nofun⟩
  | succ n ih =>
    rw [frames_succ ih.active]
    exact ih.play (regs n)

end

/-- **Pitch is exact** for the pitches below `4096 + gcd P 114688`, every pitch up to 0x1000 among them,
and for no others. How far beyond the end of a block the steps get is a multiple of `gcd P 114688` below
`P`, and 114688 is the length of a block in phase units. -/
theorem pitch_exact_iff {P : Nat} (hpos : 0 < P) (hP : P ≤ 0x3FFF) :
    PitchExact P ↔ P < 4096 + Nat.gcd P 114688 := by
  constructor
  · intro hexact
    by_contra hlarge
    obtain ⟨n, M, hM⟩ := exists_overshoot (P := P) (by unfold blockUnits; omega)
    -- the program of zeros plays for ever, with every frame on time
    have hphase (k : Nat) :
        ((keyed 0 0).frames (fun _ => 0) (fun _ _ => BitVec.ofNat 16 P) k).phase < 4096 := by
      have h := (hexact (fun _ => 0) 0 0 (fun _ _ => BitVec.ofNat 16 P) (fun _ => rfl) k
        (endless_frames _ k).active).2
      rwa [refill_phase] at h
    have hpitch : pitchOf (BitVec.ofNat 16 P) = P := pitchOf_ofNat hpos hP
    have hontime (k : Nat) : OnTime (fun _ => 0) (keyed 0 0).playback P k
        ((keyed 0 0).frames (fun _ => 0) (fun _ _ => BitVec.ofNat 16 P) k) := by
      induction k with
      | zero => exact onTime_keyed _ 0 0 P
      | succ k ih =>
        have hnext := hphase (k + 1)
        rw [frames_succ (endless_frames _ k).active] at hnext ⊢
        obtain ⟨m, pos, hplays, htotal, -⟩ := ih.play (fun _ => BitVec.ofNat 16 P) hpitch hP
        exact ⟨⟨m, pos, hplays, htotal⟩, hnext⟩
    have hheld := (hontime n).held_up (fun _ => BitVec.ofNat 16 P) hpitch hP hM
      (Nat.le_of_not_lt hlarge)
    have hnext := hphase (n + 1)
    rw [frames_succ (endless_frames _ n).active] at hnext
    omega
  · intro hsmall ram start loop regs hreg n v hactive
    have hpitch (k : Nat) : pitchOf (regs k 2) = P := by
      rw [hreg k]
      exact pitchOf_ofNat hpos hP
    have hontime := onTime_frames start loop hpitch hP hsmall n hactive
    rw [refill_phase]
    exact ⟨hontime.rawSample, hontime.phase⟩

theorem pitch_exact_half : 0 < 0x800 ∧ 0x800 ≤ 0x3FFF ∧ PitchExact 0x800 :=
  ⟨by decide, by decide, (pitch_exact_iff (by decide) (by decide)).mpr (by decide)⟩

/-- Blocks whose first sample is 0x7000 and whose other samples are 0 -/
def firstLoud : Ram := fun a => if a % 16 = 2 then 7 else 0

/-- At pitch 0x3000 frame 10 should play sample 30, the third of the second block; it plays the first,
with a phase of two samples. -/
theorem triple_pitch_held_up :
    let v := (Voice.keyed 0 0).frames firstLoud (fun _ _ => 0x3000) 10
    v.active = true ∧ 10 * 0x3000 / 4096 = 30 ∧ (v.refill firstLoud).rawSample = 0x7000 ∧
      stream firstLoud (Voice.keyed 0 0).playback 30 = 0 ∧ (v.refill firstLoud).phase = 0x2000 := by
  decide +kernel

end PsxRecomp.Spu
