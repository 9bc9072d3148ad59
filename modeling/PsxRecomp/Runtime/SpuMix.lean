import PsxRecomp.Runtime.Spu
import Mathlib.Tactic.Linarith

/-!
# `Runtime/SpuMix.lean` — the mix against the integers

A frame of `spu_render` is the sum of 24 voices and the CD input, scaled by the main volume and clamped.
The sum has room in an `int`: each voice adds at most 2^15 to it. The product with the main volume has
not.
-/

set_option autoImplicit false

namespace PsxRecomp.Spu

open List Option CInt State

open Xa (Frame Sample)
open CInt (Fits fit fit_of_fits fits_of_le wrap wrap_of_fits mul_bounds)

/-! ## 1. The mathematical mix -/

def exactSum (voices : List (Int × Int)) (cd : Option Int) (cdVol : Int) : Int :=
  (voices.map fun voice => voice.1 * voice.2 / 2 ^ 14).sum + cd.elim 0 fun c => c * cdVol / 2 ^ 15

def clampInt (v : Int) : Int := max (-32768) (min 32767 v)

def State.exactSum (s : State) (c : Channel) : Int :=
  Spu.exactSum (s.voiceTerms c) (s.cdSample c) (s.cdVolume c)

def State.exactMix (s : State) (c : Channel) : Int := s.exactSum c * s.mainVolume c / 2 ^ 14

/-! ## 2. Bounds -/

theorem clamp16_toInt (v : Int) : (clamp16 v).toInt = clampInt v := by
  have hfits : Fits 16 (if 32767 < v then 32767 else if v < -32768 then -32768 else v) := by
    constructor <;> split_ifs <;> omega
  unfold clamp16 clampInt
  rw [BitVec.toInt_ofInt]
  refine (wrap_of_fits (by decide) hfits).trans ?_
  split_ifs <;> omega

theorem directVolume_bounds (raw : BitVec 16) :
    -16384 ≤ directVolume raw ∧ directVolume raw ≤ 16384 := by
  unfold directVolume
  dsimp only
  split_ifs <;> omega

theorem cdInputVolume_bounds (raw : BitVec 16) :
    -32768 ≤ cdInputVolume raw ∧ cdInputVolume raw ≤ 32768 := by
  obtain ⟨hlo, hhi⟩ := Xa.sample_bounds raw
  exact ⟨hlo, hhi.trans (by decide)⟩

theorem shiftRight_eq (p : Int) (k : Nat) : p >>> k = p / 2 ^ k := by
  rw [Int.shiftRight_eq_div_pow]
  norm_cast

theorem shape_fits (raw : Sample) (level : BitVec 16) : Fits 32 (raw.toInt * level.toNat) := by
  obtain ⟨hlo, hhi⟩ := Xa.sample_bounds raw
  have hlevel : (level.toNat : Int) ≤ 65535 := by
    omega
  exact fits_of_le (by decide) (mul_bounds (a := 32768) (c := 65535) ⟨by omega, by omega⟩
    ⟨by omega, hlevel⟩)

def Term (voice : Int × Int) : Prop :=
  (-32768 ≤ voice.1 ∧ voice.1 ≤ 32768) ∧ (-16384 ≤ voice.2 ∧ voice.2 ≤ 16384)

theorem voiceTerms_bounded (s : State) (c : Channel) : ∀ voice ∈ s.voiceTerms c, Term voice := by
  intro voice hvoice
  obtain ⟨i, -, rfl⟩ := List.mem_map.mp hvoice
  obtain ⟨hlo, hhi⟩ := Xa.sample_bounds (s.nextSample i).1
  exact ⟨⟨hlo, hhi.trans (by decide)⟩, directVolume_bounds _⟩

theorem length_voiceTerms (s : State) (c : Channel) : (s.voiceTerms c).length = 24 := by
  rw [voiceTerms, length_map, length_finRange]

theorem cdSample_bounds {s : State} {c : Channel} {v : Int} (h : s.cdSample c = some v) :
    -32768 ≤ v ∧ v ≤ 32768 := by
  obtain ⟨frame, -, rfl⟩ := map_eq_some_iff.mp h
  cases c with
  | left =>
    obtain ⟨hlo, hhi⟩ := Xa.sample_bounds frame.left
    exact ⟨hlo, hhi.trans (by decide)⟩
  | right =>
    obtain ⟨hlo, hhi⟩ := Xa.sample_bounds frame.right
    exact ⟨hlo, hhi.trans (by decide)⟩

/-! ## 3. The sum fits -/

section
variable {voices : List (Int × Int)} {cd : Option Int} {cdVol main mix A : Int}

theorem mixVoice_fit {voice : Int × Int} (hterm : Term voice)
    (hfit : Fits 32 (mix + voice.1 * voice.2 / 2 ^ 14)) :
    mixVoice (fit 32) mix voice = some (mix + voice.1 * voice.2 / 2 ^ 14) := by
  unfold mixVoice
  split_ifs with hzero
  · rw [hzero, zero_mul, Int.zero_ediv, add_zero]
    rfl
  · rw [bind_of_eq (fit_of_fits (fits_of_le (by decide) (mul_bounds hterm.1 hterm.2))), shiftRight_eq]
    exact fit_of_fits hfit

theorem term_bounds (hterms : ∀ voice ∈ voices, Term voice) :
    ∀ voice ∈ voices, -(32768 : Int) ≤ voice.1 * voice.2 / 2 ^ 14 ∧ voice.1 * voice.2 / 2 ^ 14 ≤ 32768 := by
  intro voice hvoice
  obtain ⟨hs, hvol⟩ := hterms voice hvoice
  have hprod := mul_bounds hs hvol
  omega

theorem mixVoices_fit (hterms : ∀ voice ∈ voices, Term voice) (hlen : voices.length ≤ 24) :
    mixVoices (fit 32) voices = some (voices.map fun voice => voice.1 * voice.2 / 2 ^ 14).sum := by
  refine (foldlM_sum (w := 32) (A := 0) (fun voice hv _ => mixVoice_fit (hterms voice hv))
    (term_bounds hterms) ⟨by decide, by decide⟩ (by omega)).trans ?_
  rw [zero_add]

theorem term_sum_bounds (hterms : ∀ voice ∈ voices, Term voice) (hlen : voices.length ≤ 24) :
    -786432 ≤ (voices.map fun voice => voice.1 * voice.2 / 2 ^ 14).sum ∧
      (voices.map fun voice => voice.1 * voice.2 / 2 ^ 14).sum ≤ 786432 := by
  obtain ⟨hlo, hhi⟩ := sum_bounds (term_bounds hterms)
  omega

theorem mixCd_fit (hcd : ∀ v, cd = some v → -32768 ≤ v ∧ v ≤ 32768)
    (hvol : -32768 ≤ cdVol ∧ cdVol ≤ 32768) (hmix : -786432 ≤ mix ∧ mix ≤ 786432) :
    mixCd (fit 32) cd cdVol mix = some (mix + cd.elim 0 fun c => c * cdVol / 2 ^ 15) := by
  cases cd with
  | none => exact congrArg some (add_zero mix).symm
  | some v =>
    have hprod := mul_bounds (hcd v rfl) hvol
    unfold mixCd
    dsimp only [Option.elim]
    rw [bind_of_eq (fit_of_fits (fits_of_le (by decide) hprod)), shiftRight_eq]
    exact fit_of_fits (fits_of_le (B := 1000000) (by decide) ⟨by omega, by omega⟩)

end

/-! ## 4. The machine and the checked reading -/

section
variable {voices : List (Int × Int)} {cd : Option Int} {cdVol main r : Int}

/-- What an `int` becomes on the machine -/
def machine (v : Int) : Id Int := pure (wrap 32 v)

theorem machine_of_fit {v : Int} (h : fit 32 v = some r) : machine v = r := by
  obtain ⟨hfits, rfl⟩ := fit_eq_some_iff.mp h
  exact wrap_of_fits (by decide) hfits

theorem machine_bind {α β : Type} {x : Id α} {a : α} {f : α → Id β} (h : x = a) : (x >>= f) = f a := by
  rw [h]
  rfl

theorem bind_eq_some_of {α β : Type} {x : Option α} {f : α → Option β} {b : β}
    (h : (x >>= f) = some b) : ∃ a, x = some a ∧ f a = some b := bind_eq_some_iff.mp h

theorem mixVoice_machine {mix : Int} {voice : Int × Int} (h : mixVoice (fit 32) mix voice = some r) :
    mixVoice machine mix voice = r := by
  unfold mixVoice at h ⊢
  split_ifs at h ⊢ with hzero
  · exact some.inj h
  · obtain ⟨p, hp, hsum⟩ := bind_eq_some_of h
    rw [machine_bind (machine_of_fit hp)]
    exact machine_of_fit hsum

theorem mixVoices_machine (h : mixVoices (fit 32) voices = some r) : mixVoices machine voices = r := by
  have hacc : ∀ (l : List (Int × Int)) (mix r : Int), l.foldlM (mixVoice (fit 32)) mix = some r →
      l.foldlM (mixVoice machine) mix = r := by
    intro l
    induction l with
    | nil => exact fun mix r h => some.inj h
    | cons voice l ih =>
      intro mix r h
      rw [foldlM_cons] at h ⊢
      obtain ⟨mix', hstep, hrest⟩ := bind_eq_some_of h
      rw [machine_bind (mixVoice_machine hstep)]
      exact ih mix' r hrest
  exact hacc voices 0 r h

theorem mixCd_machine {mix : Int} (h : mixCd (fit 32) cd cdVol mix = some r) :
    mixCd machine cd cdVol mix = r := by
  cases cd with
  | none => exact some.inj h
  | some v =>
    obtain ⟨p, hp, hsum⟩ := bind_eq_some_of h
    unfold mixCd
    dsimp only
    rw [machine_bind (machine_of_fit hp)]
    exact machine_of_fit hsum

theorem mixChannel_machine (h : mixChannel (fit 32) voices cd cdVol main = some r) :
    mixChannel machine voices cd cdVol main = r := by
  obtain ⟨mix, hvoices, h⟩ := bind_eq_some_of h
  obtain ⟨mix', hcd, h⟩ := bind_eq_some_of h
  obtain ⟨p, hp, h⟩ := bind_eq_some_of h
  unfold mixChannel
  rw [machine_bind (mixVoices_machine hvoices), machine_bind (mixCd_machine hcd),
    machine_bind (machine_of_fit hp)]
  exact some.inj h

end

/-! ## 5. Blocks -/

section
variable {s : State} {c : Channel}

theorem mix_fit (s : State) (c : Channel) :
    s.mix (fit 32) c = (fit 32 (s.exactSum c * s.mainVolume c)).bind fun p =>
      some (p >>> (14 : Nat)) := by
  have hterms := voiceTerms_bounded s c
  have hlen := (length_voiceTerms s c).le
  unfold mix cdVolume mixChannel
  rw [bind_of_eq (mixVoices_fit hterms hlen), bind_of_eq
    (mixCd_fit (fun _ => cdSample_bounds) (cdInputVolume_bounds _) (term_sum_bounds hterms hlen))]
  rfl

theorem mix_fit_iff : s.mix (fit 32) c = some (s.exactMix c) ↔ Fits 32 (s.exactSum c * s.mainVolume c) := by
  rw [mix_fit]
  constructor
  · intro h
    obtain ⟨p, hp, -⟩ := bind_eq_some_iff.mp h
    exact (fit_eq_some_iff.mp hp).1
  · intro h
    rw [fit_of_fits h, bind_some, shiftRight_eq, exactMix]

/-- A frame of the block that `s` renders next: its channels are the clamped mathematical mix, and no
intermediate result leaves `int`, the products with the envelope included. -/
def FrameExact (s : State) (out : Frame) : Prop :=
  (∀ i, Fits 32 (((s.voices i).refill s.ram).rawSample.toInt *
    ((s.voices i).refill s.ram).env.level.toNat)) ∧
  ∀ c : Channel, if s.enabled then s.mix (fit 32) c = some (s.exactMix c) ∧
    c.of out = clampInt (s.exactMix c) else c.of out = 0

/-- The products of the main volumes with the sums fit. -/
def MainFits (s : State) : Prop :=
  s.enabled → ∀ c : Channel, Fits 32 (s.exactSum c * s.mainVolume c)

theorem of_renderFrame (h : s.enabled) : c.of s.renderFrame.1 = clampInt (s.machineMix c) := by
  unfold renderFrame
  rw [if_pos h]
  cases c with
  | left => exact clamp16_toInt _
  | right => exact clamp16_toInt _

theorem frameExact_iff (s : State) : FrameExact s s.renderFrame.1 ↔ MainFits s := by
  constructor
  · rintro ⟨-, h⟩ hon c
    have hc := h c
    rw [if_pos hon] at hc
    exact mix_fit_iff.mp hc.1
  · intro h
    refine ⟨fun i => shape_fits _ _, fun c => ?_⟩
    split_ifs with hon
    · rw [of_renderFrame hon, show s.machineMix c = s.exactMix c from mixChannel_machine (mix_fit_iff.mpr (h hon c))]
      exact ⟨mix_fit_iff.mpr (h hon c), rfl⟩
    · unfold renderFrame
      rw [if_neg hon]
      cases c with
      | left => rfl
      | right => rfl

/-- The state after `k` frames -/
def State.after (s : State) (k : Nat) : State := (fun t => t.renderFrame.2)^[k] s

theorem render_eq (n : Nat) : ∀ s : State,
    (s.render n).1 = (List.range n).map fun k => (s.after k).renderFrame.1 := by
  induction n with
  | zero => exact fun s => rfl
  | succ n ih =>
    intro s
    rw [range_succ_eq_map, map_cons, List.map_map]
    show s.renderFrame.1 :: (s.renderFrame.2.render n).1 = _
    rw [ih s.renderFrame.2]
    rfl

/-- **The mix is exact**, with no intermediate result outside of `int`, in the blocks whose products
with the main volume fit, for every frame and both channels, and in no others. -/
theorem mix_exact_iff (s : State) (n : Nat) :
    (∀ k out, (s.render n).1[k]? = some out → FrameExact (s.after k) out) ↔
      ∀ k < n, MainFits (s.after k) := by
  have hget (k : Nat) (hk : k < n) : (s.render n).1[k]? = some (s.after k).renderFrame.1 := by
    rw [render_eq, List.getElem?_map, List.getElem?_range hk, map_some]
  constructor
  · intro h k hk
    exact (frameExact_iff _).mp (h k _ (hget k hk))
  · intro h k out hout
    have hk : k < n := by
      obtain ⟨hk, -⟩ := List.getElem?_eq_some_iff.mp hout
      rwa [render_eq, length_map, length_range] at hk
    rw [hget k hk, some.injEq] at hout
    rw [← hout]
    exact (frameExact_iff _).mpr (h k hk)

end

def loud : State :=
  { State.init with
    regs := fun r => if r = regIndex 0x1F801DAA then 0x8000 else 0x3FFF
    voices := fun i =>
      if i.val < 5 then
        { Voice.zero with
          active := true, samples := List.replicate 28 0x7FFF, env := ⟨0x7FFF, 0, .sustain⟩ }
      else .zero }

/-- From five loud voices on the product may leave the 32 bits, and since the clamp comes last, the
loudest positive frame turns into the loudest negative one. -/
theorem loud_mix_flips :
    loud.exactSum .left = 163820 ∧ clampInt (loud.exactMix .left) = 32767 ∧
      (loud.render 1).1.map (fun frame => frame.left.toInt) = [-32768] := by
  decide +kernel

end PsxRecomp.Spu
