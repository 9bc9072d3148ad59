import PsxRecomp.Lib.Words
import PsxRecomp.Machine.Cpu

/-!
# `Bios/AddressMap.lean` — where BIOS code is and where it runs

The BIOS copies two parts of its ROM into RAM and runs them there: kernel part 2 (ROM `0x1FC10000`, RAM
`0x500`) and the shell (ROM `0x1FC18000`, RAM `0x30000`). The recompiler reads the ROM. A `J` or `JAL`
takes the top four bits of its target from the *runtime* address, so both function discovery
(`remap_relocated_j_target`, back to ROM) and the emitter (`relocate_j_target`, to RAM) correct the
target they computed from the ROM address, each with its own windows.
-/

set_option autoImplicit false

namespace PsxRecomp.Bios

open BitVec

/-! ## 1. The maps -/

/-- `addr & 0x1FFFFFFF` -/
def physical (addr : Word) : Word := addr &&& 0x1FFFFFFF#32

/-- `FullFunctionEmitter::normalize_address`, and the `normalize` it emits for the dispatcher. -/
def normalizeAddress (addr : Word) : Word :=
  let phys := physical addr
  let phys :=
    if 0x1FC10000#32 ≤ phys ∧ phys ≤ 0x1FC17FFF#32 then phys - 0x1FC10000#32 + 0x500#32 else phys
  if 0x30000#32 ≤ phys ∧ phys ≤ 0x5AFFF#32 then phys - 0x30000#32 + 0x1FC18000#32 else phys

/-- The target of `J` and `JAL` at an address of the ROM. -/
def romTarget (addr : Word) (index : BitVec 26) : Word :=
  ((addr + 4#32) &&& 0xF0000000#32) ||| (index.setWidth 32 <<< 2)

/-- `relocate_j_target`, as `emit_function` applies it -/
def relocateJTarget (romAddr target : Word) : Word :=
  let phys := physical romAddr
  if 0x1FC10000#32 ≤ phys ∧ phys ≤ 0x1FC17FFF#32 then
    let runtimeAddr := phys - 0x1FC10000#32 + 0x500#32
    (runtimeAddr &&& 0xF0000000#32) ||| (target &&& 0x0FFFFFFF#32)
  else if 0x1FC18000#32 ≤ phys ∧ phys ≤ 0x1FC42FFF#32 then
    let runtimeAddr := 0x80030000#32 + (phys - 0x1FC18000#32)
    (runtimeAddr &&& 0xF0000000#32) ||| (target &&& 0x0FFFFFFF#32)
  else target

/-- `remap_relocated_j_target`, as `classify_control_flow` applies it -/
def remapRelocatedJTarget (target sourceRomAddr : Word) : Word :=
  let srcPhys := physical sourceRomAddr
  if 0x1FC10000#32 ≤ srcPhys ∧ srcPhys ≤ 0x1FC17FFF#32 then
    let runtimeAddr := srcPhys - 0x1FC10000#32 + 0x500#32
    let ramTarget := (runtimeAddr &&& 0xF0000000#32) ||| (target &&& 0x0FFFFFFF#32)
    let ramPhys := physical ramTarget
    if 0x500#32 ≤ ramPhys ∧ ramPhys < 0x8500#32 then 0xBFC10000#32 + (ramPhys - 0x500#32)
    else if 0x1FC00000#32 ≤ ramPhys ∧ ramPhys < 0x1FC80000#32 then ramTarget
    else target
  else if 0x1FC18000#32 ≤ srcPhys ∧ srcPhys ≤ 0x1FC427FF#32 then
    let ramTarget := 0x80000000#32 ||| (target &&& 0x0FFFFFFF#32)
    let ramPhys := physical ramTarget
    if 0x30000#32 ≤ ramPhys ∧ ramPhys < 0x5A800#32 then 0xBFC18000#32 + (ramPhys - 0x30000#32)
    else if 0x500#32 ≤ ramPhys ∧ ramPhys < 0x8500#32 then 0xBFC10000#32 + (ramPhys - 0x500#32)
    else if 0x1FC00000#32 ≤ ramPhys ∧ ramPhys < 0x1FC10000#32 then
      0xBFC00000#32 + (ramPhys - 0x1FC00000#32)
    else target
  else target

/-- The ROM word a dispatch key stands for: a word of the ROM, or the original of a RAM copy. -/
def romWord (key : Word) : Option Word :=
  if 0x1FC00000#32 ≤ key ∧ key ≤ 0x1FC7FFFF#32 then some key
  else if 0x500#32 ≤ key ∧ key < 0x8500#32 then some (key - 0x500#32 + 0x1FC10000#32)
  else if 0x30000#32 ≤ key ∧ key ≤ 0x5AFFF#32 then some (key - 0x30000#32 + 0x1FC18000#32)
  else none

/-! ## 2. The maps as numbers -/

/-- `normalizeAddress` on a physical address. -/
def normalizeNat (n : Nat) : Nat :=
  if 0x1FC10000 ≤ n ∧ n ≤ 0x1FC17FFF then n - 0x1FC10000 + 0x500
  else if 0x30000 ≤ n ∧ n ≤ 0x5AFFF then n - 0x30000 + 0x1FC18000
  else n

section
variable {a addr target : Word} {index : BitVec 26}

theorem toNat_physical : (physical a).toNat = a.toNat % 2 ^ 29 := Words.toNat_and_low29 a

theorem toNat_low28 : (a &&& 0x0FFFFFFF#32).toNat = a.toNat % 2 ^ 28 := by
  exact Nat.and_two_pow_sub_one_eq_mod _ 28

theorem toNat_high4_or_low28 (x : Word) : ((x &&& 0xF0000000#32) ||| (a &&& 0x0FFFFFFF#32)).toNat =
    x.toNat / 2 ^ 28 * 2 ^ 28 + a.toNat % 2 ^ 28 := by
  have hlt : (a &&& 0x0FFFFFFF#32).toNat < 2 ^ 28 := by
    rw [toNat_low28]
    omega
  rw [Words.toNat_or_high4 x hlt, toNat_low28]

theorem toNat_normalizeAddress : (normalizeAddress a).toNat = normalizeNat (a.toNat % 2 ^ 29) := by
  have hp := toNat_physical (a := a)
  have hlt : a.toNat % 2 ^ 29 < 2 ^ 29 := by omega
  rw [← hp] at hlt ⊢
  unfold normalizeAddress normalizeNat
  generalize physical a = p at hlt ⊢
  dsimp only
  split_ifs <;> bv_omega

theorem romWord_eq_none_iff : romWord a = none ↔
    ¬ (0x1FC00000 ≤ a.toNat ∧ a.toNat ≤ 0x1FC7FFFF) ∧ ¬ (0x500 ≤ a.toNat ∧ a.toNat < 0x8500) ∧
      ¬ (0x30000 ≤ a.toNat ∧ a.toNat ≤ 0x5AFFF) := by
  unfold romWord
  split_ifs <;> simp only [false_iff, true_iff] <;> bv_omega

variable (index) in
theorem toNat_romTarget (h : 0x1FC00000 ≤ (physical addr).toNat)
    (h' : (physical addr).toNat ≤ 0x1FC7FFFF) :
    (romTarget addr index).toNat % 2 ^ 29 = 2 ^ 28 + 4 * index.toNat := by
  have hlow : (index.setWidth 32 <<< 2).toNat = 4 * index.toNat := by
    rw [toNat_shiftLeft, toNat_setWidth, Nat.shiftLeft_eq]
    omega
  rw [toNat_physical] at h h'
  have h4 : (4#32).toNat = 4 := rfl
  rw [romTarget, Words.toNat_or_high4 _ (by omega), hlow, toNat_add, h4]
  omega

end

/-! ## 3. Agreement -/

section
variable (src : Word) (index : BitVec 26)

/-- Where discovery goes on after a jump at `src`. -/
def followed : Word := remapRelocatedJTarget (romTarget src index) src

def dispatched : Word := relocateJTarget src (romTarget src index)

/-- If the emitted jump reaches a ROM word or its RAM copy, discovery follows that word, under the
dispatcher's key for it; and what discovery follows is what the jump reaches. -/
def JumpAgrees : Prop :=
  ((romWord (normalizeAddress (dispatched src index))).isSome →
    normalizeAddress (followed src index) = normalizeAddress (dispatched src index)) ∧
  ((romWord (normalizeAddress (followed src index))).isSome →
    romWord (normalizeAddress (dispatched src index)) =
      romWord (normalizeAddress (followed src index)))

/-- The low 28 bits of a target lie in the RAM copy of kernel part 2, in that of the shell, or where
the ROM is in its 256 MB region. -/
def InKernelCopy : Prop := 0x500 ≤ 4 * index.toNat ∧ 4 * index.toNat < 0x8500
def InShellCopy : Prop := 0x30000 ≤ 4 * index.toNat ∧ 4 * index.toNat ≤ 0x5AFFF
def InRomImage : Prop := 0x0FC00000 ≤ 4 * index.toNat ∧ 4 * index.toNat ≤ 0x0FC7FFFF

/-- The jumps both sides correct alike, by the window of the source. -/
structure JumpCovered : Prop where
  kernel : 0x1FC10000 ≤ (physical src).toNat → (physical src).toNat ≤ 0x1FC17FFF →
    ¬ InShellCopy index ∧ ¬ InRomImage index
  shell : 0x1FC18000 ≤ (physical src).toNat → (physical src).toNat ≤ 0x1FC427FF →
    ¬ (0x5A800 ≤ 4 * index.toNat ∧ 4 * index.toNat ≤ 0x5AFFF) ∧ ¬ InRomImage index
  /-- the last 2 KB of the shell, which only the emitter relocates -/
  shellTail : 0x1FC42800 ≤ (physical src).toNat → (physical src).toNat ≤ 0x1FC42FFF →
    ¬ InKernelCopy index ∧ ¬ InShellCopy index ∧ ¬ InRomImage index

variable {src index}

theorem jumpAgrees_iff_keys : JumpAgrees src index ↔
    normalizeAddress (followed src index) = normalizeAddress (dispatched src index) ∨
      romWord (normalizeAddress (followed src index)) = none ∧
        romWord (normalizeAddress (dispatched src index)) = none := by
  rw [JumpAgrees]
  generalize normalizeAddress (followed src index) = d
  generalize normalizeAddress (dispatched src index) = e
  by_cases heq : d = e
  · simp [heq]
  · cases romWord d <;> cases romWord e <;> simp [heq]

section
variable (index)
variable (hlo : 0x1FC00000 ≤ (physical src).toNat) (hhi : (physical src).toNat ≤ 0x1FC7FFFF)
include hlo hhi

theorem toNat_romTarget_low : (romTarget src index).toNat % 2 ^ 28 = 4 * index.toNat := by
  have h := toNat_romTarget index hlo hhi
  omega

theorem toNat_dispatched_kernel (hk : 0x1FC10000 ≤ (physical src).toNat)
    (hk' : (physical src).toNat ≤ 0x1FC17FFF) : (dispatched src index).toNat = 4 * index.toNat := by
  have hw : 0x1FC10000#32 ≤ physical src ∧ physical src ≤ 0x1FC17FFF#32 := by bv_omega
  have hrt : (physical src - 0x1FC10000#32 + 0x500#32).toNat < 2 ^ 28 := by bv_omega
  simp only [dispatched, relocateJTarget, if_pos hw]
  rw [toNat_high4_or_low28, toNat_romTarget_low index hlo hhi]
  omega

theorem toNat_dispatched_shell (hs : 0x1FC18000 ≤ (physical src).toNat)
    (hs' : (physical src).toNat ≤ 0x1FC42FFF) :
    (dispatched src index).toNat = 2 ^ 31 + 4 * index.toNat := by
  have hk : ¬ (0x1FC10000#32 ≤ physical src ∧ physical src ≤ 0x1FC17FFF#32) := by bv_omega
  have hw : 0x1FC18000#32 ≤ physical src ∧ physical src ≤ 0x1FC42FFF#32 := by bv_omega
  have hrt : (0x80030000#32 + (physical src - 0x1FC18000#32)).toNat / 2 ^ 28 = 8 := by bv_omega
  simp only [dispatched, relocateJTarget, if_neg hk, if_pos hw]
  rw [toNat_high4_or_low28, toNat_romTarget_low index hlo hhi, hrt]
  omega

theorem toNat_followed_kernel (hk : 0x1FC10000 ≤ (physical src).toNat)
    (hk' : (physical src).toNat ≤ 0x1FC17FFF) :
    (followed src index).toNat % 2 ^ 29 =
      if 0x500 ≤ 4 * index.toNat ∧ 4 * index.toNat < 0x8500 then
        0x1FC10000 + (4 * index.toNat - 0x500)
      else 2 ^ 28 + 4 * index.toNat := by
  have hw : 0x1FC10000#32 ≤ physical src ∧ physical src ≤ 0x1FC17FFF#32 := by bv_omega
  have hram := toNat_dispatched_kernel index hlo hhi hk hk'
  have hT := toNat_romTarget index hlo hhi
  simp only [dispatched, relocateJTarget, if_pos hw] at hram
  simp only [followed, remapRelocatedJTarget, if_pos hw]
  generalize (physical src - 0x1FC10000#32 + 0x500#32 &&& 0xF0000000#32 |||
    romTarget src index &&& 0x0FFFFFFF#32) = r at hram ⊢
  have hp : (physical r).toNat = 4 * index.toNat := by
    rw [toNat_physical]
    omega
  generalize physical r = p at hp ⊢
  split_ifs <;> bv_omega

theorem toNat_followed_shell (hs : 0x1FC18000 ≤ (physical src).toNat)
    (hs' : (physical src).toNat ≤ 0x1FC427FF) :
    (followed src index).toNat % 2 ^ 29 =
      if 0x30000 ≤ 4 * index.toNat ∧ 4 * index.toNat < 0x5A800 then
        0x1FC18000 + (4 * index.toNat - 0x30000)
      else if 0x500 ≤ 4 * index.toNat ∧ 4 * index.toNat < 0x8500 then
        0x1FC10000 + (4 * index.toNat - 0x500)
      else 2 ^ 28 + 4 * index.toNat := by
  have hk : ¬ (0x1FC10000#32 ≤ physical src ∧ physical src ≤ 0x1FC17FFF#32) := by bv_omega
  have hw : 0x1FC18000#32 ≤ physical src ∧ physical src ≤ 0x1FC427FF#32 := by bv_omega
  have hT := toNat_romTarget index hlo hhi
  have h80 : (0x80000000#32 ||| romTarget src index &&& 0x0FFFFFFF#32).toNat =
      2 ^ 31 + 4 * index.toNat := by
    have h := toNat_high4_or_low28 (a := romTarget src index) 0x80000000#32
    rw [toNat_romTarget_low index hlo hhi] at h
    exact h
  simp only [followed, remapRelocatedJTarget, if_neg hk, if_pos hw]
  have hp : (physical (0x80000000#32 ||| romTarget src index &&& 0x0FFFFFFF#32)).toNat =
      4 * index.toNat := by
    rw [toNat_physical, h80]
    omega
  generalize physical (0x80000000#32 ||| romTarget src index &&& 0x0FFFFFFF#32) = p at hp ⊢
  split_ifs <;> bv_omega

theorem jumpAgrees_kernel_iff (hk : 0x1FC10000 ≤ (physical src).toNat)
    (hk' : (physical src).toNat ≤ 0x1FC17FFF) :
    JumpAgrees src index ↔ ¬ InShellCopy index ∧ ¬ InRomImage index := by
  have he := toNat_dispatched_kernel index hlo hhi hk hk'
  have hd := toNat_followed_kernel index hlo hhi hk hk'
  rw [jumpAgrees_iff_keys, romWord_eq_none_iff, romWord_eq_none_iff, ← toNat_inj,
    toNat_normalizeAddress, toNat_normalizeAddress, he, hd, InShellCopy, InRomImage]
  unfold normalizeNat
  split_ifs <;> omega

theorem jumpAgrees_shell_iff (hs : 0x1FC18000 ≤ (physical src).toNat)
    (hs' : (physical src).toNat ≤ 0x1FC427FF) :
    JumpAgrees src index ↔
      ¬ (0x5A800 ≤ 4 * index.toNat ∧ 4 * index.toNat ≤ 0x5AFFF) ∧ ¬ InRomImage index := by
  have he := toNat_dispatched_shell index hlo hhi hs (by omega)
  have hd := toNat_followed_shell index hlo hhi hs hs'
  rw [jumpAgrees_iff_keys, romWord_eq_none_iff, romWord_eq_none_iff, ← toNat_inj,
    toNat_normalizeAddress, toNat_normalizeAddress, he, hd, InRomImage]
  unfold normalizeNat
  split_ifs <;> omega

theorem jumpAgrees_shellTail_iff (hs : 0x1FC42800 ≤ (physical src).toNat)
    (hs' : (physical src).toNat ≤ 0x1FC42FFF) :
    JumpAgrees src index ↔ ¬ InKernelCopy index ∧ ¬ InShellCopy index ∧ ¬ InRomImage index := by
  have he := toNat_dispatched_shell index hlo hhi (by omega) hs'
  have hk : ¬ (0x1FC10000#32 ≤ physical src ∧ physical src ≤ 0x1FC17FFF#32) := by bv_omega
  have hw : ¬ (0x1FC18000#32 ≤ physical src ∧ physical src ≤ 0x1FC427FF#32) := by bv_omega
  have hd : (followed src index).toNat % 2 ^ 29 = 2 ^ 28 + 4 * index.toNat := by
    simp only [followed, remapRelocatedJTarget, if_neg hk, if_neg hw]
    exact toNat_romTarget index hlo hhi
  rw [jumpAgrees_iff_keys, romWord_eq_none_iff, romWord_eq_none_iff, ← toNat_inj,
    toNat_normalizeAddress, toNat_normalizeAddress, he, hd, InKernelCopy, InShellCopy, InRomImage]
  unfold normalizeNat
  split_ifs <;> omega

theorem jumpAgrees_of_unrelocated (hr : (physical src).toNat < 0x1FC10000 ∨
    0x1FC42FFF < (physical src).toNat) : JumpAgrees src index := by
  have hk : ¬ (0x1FC10000#32 ≤ physical src ∧ physical src ≤ 0x1FC17FFF#32) := by bv_omega
  have hw : ¬ (0x1FC18000#32 ≤ physical src ∧ physical src ≤ 0x1FC427FF#32) := by bv_omega
  have hw' : ¬ (0x1FC18000#32 ≤ physical src ∧ physical src ≤ 0x1FC42FFF#32) := by bv_omega
  refine jumpAgrees_iff_keys.mpr (.inl ?_)
  simp [followed, dispatched, remapRelocatedJTarget, relocateJTarget, if_neg hk, if_neg hw, if_neg hw']

end

/-- **Discovery and emission agree on exactly the covered jumps**: for these the two corrections mean
the same ROM word. -/
theorem jump_agrees_iff (hlo : 0x1FC00000 ≤ (physical src).toNat)
    (hhi : (physical src).toNat ≤ 0x1FC7FFFF) : JumpAgrees src index ↔ JumpCovered src index := by
  by_cases hk : 0x1FC10000 ≤ (physical src).toNat ∧ (physical src).toNat ≤ 0x1FC17FFF
  · rw [jumpAgrees_kernel_iff index hlo hhi hk.1 hk.2]
    exact ⟨fun h => ⟨fun _ _ => h, by omega, by omega⟩, fun h => h.kernel hk.1 hk.2⟩
  by_cases hs : 0x1FC18000 ≤ (physical src).toNat ∧ (physical src).toNat ≤ 0x1FC427FF
  · rw [jumpAgrees_shell_iff index hlo hhi hs.1 hs.2]
    exact ⟨fun h => ⟨by omega, fun _ _ => h, by omega⟩, fun h => h.shell hs.1 hs.2⟩
  by_cases ht : 0x1FC42800 ≤ (physical src).toNat ∧ (physical src).toNat ≤ 0x1FC42FFF
  · rw [jumpAgrees_shellTail_iff index hlo hhi ht.1 ht.2]
    exact ⟨fun h => ⟨by omega, by omega, fun _ _ => h⟩, fun h => h.shellTail ht.1 ht.2⟩
  have hr := jumpAgrees_of_unrelocated index hlo hhi (by omega)
  exact ⟨fun _ => ⟨by omega, by omega, by omega⟩, fun _ => hr⟩

/-- Inside kernel part 2: the ROM word behind RAM `0x600` -/
theorem jump_agrees_kernel : JumpAgrees 0xBFC10000#32 0x180#26 ∧
    followed 0xBFC10000#32 0x180#26 = 0xBFC10100#32 :=
  ⟨(jump_agrees_iff (by decide) (by decide)).mpr ⟨fun _ _ => ⟨by unfold InShellCopy; decide,
    by unfold InRomImage; decide⟩, fun h => absurd h (by decide), fun h => absurd h (by decide)⟩, by decide⟩

/-- From kernel part 2 to the first word of the shell. -/
theorem jump_kernel_to_shell_disagrees : ¬ JumpAgrees 0xBFC10000#32 0xC000#26 := by
  rintro ⟨h, -⟩
  exact absurd (h (by decide)) (by decide)

end

end PsxRecomp.Bios
