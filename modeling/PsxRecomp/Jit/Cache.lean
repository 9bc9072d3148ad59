import PsxRecomp.Jit.Sljit

/-!
# `Jit/Cache.lean` — the register cache stands for the guest registers

The cache of `overlay_sljit.c` is state of the *compiler*; the registers it describes are state of the
*emitted code*. `Sync` relates the two to the guest state the interpreter would have: a cached register
is in its host register, a clean or uncached one is in `CPUState`.

Each operation of the cache has one specification here, a `wp` about the code it emits. The emitters are
proved from these and do not look at slots.
-/

set_option autoImplicit false

namespace PsxRecomp.Jit

open Linear Staged List Option HState
open Gen (emit state modify)
open Instr (exec)

/-! ## 1. The invariant of the cache -/

/-- `used` are the registers of the fragment, `P` the ones the current instruction has pinned. -/
structure Wf (used : Finset Reg) (P : List Reg) (κ : GprCache) : Prop where
  distinct : ∀ {i j : Nat} {s t : GprSlot} {n : Reg}, κ.slots[i]? = some s → κ.slots[j]? = some t →
    s.reg = some n → t.reg = some n → i = j
  inUse : ∀ {k : Nat} {s : GprSlot} {n : Reg}, κ.slots[k]? = some s → s.reg = some n → n ∈ used
  pins : ∀ {k : Nat} {s : GprSlot}, κ.slots[k]? = some s → s.pinned = true → ∃ n ∈ P, s.reg = some n
  room : used.card ≤ κ.slots.length ∨ 4 ≤ κ.slots.length

def Uncached (κ : GprCache) (n : Reg) : Prop :=
  ∀ (k : Nat) (s : GprSlot), κ.slots[k]? = some s → s.reg ≠ some n

@[simp] theorem update_getElem? (κ : GprCache) (k j : Nat) (f : GprSlot → GprSlot) :
    (κ.update k f).slots[j]? = κ.slots[j]?.map fun s => if k = j then f s else s :=
  getElem?_modify f k κ.slots j

variable {s : GprSlot} {κ : GprCache} {k : Nat}

theorem update_self (hk : κ.slots[k]? = some s)
    (f : GprSlot → GprSlot) : (κ.update k f).slots[k]? = some (f s) := by
  simp [hk]

variable {f : GprSlot → GprSlot} {j : Nat}

theorem slot_of_update (h : (κ.update k f).slots[j]? = some s) :
    ∃ t, κ.slots[j]? = some t ∧ (if k = j then f t else t) = s :=
  map_eq_some_iff.mp ((update_getElem? κ k j f).symm.trans h)

variable {g : GprSlot → GprSlot} {ss : List GprSlot}

theorem slot_of_map (h : (ss.map g)[j]? = some s) : ∃ t, ss[j]? = some t ∧ g t = s :=
  map_eq_some_iff.mp (getElem?_map.symm.trans h)

@[simp] theorem update_length (κ : GprCache) (k : Nat) (f : GprSlot → GprSlot) :
    (κ.update k f).slots.length = κ.slots.length := by
  simp [GprCache.update]

theorem gprFind_some {n : Reg} (h : gprFind κ n = some k) :
    ∃ s, κ.slots[k]? = some s ∧ s.reg = some n := by
  obtain ⟨hk, hs, -⟩ := findIdx?_eq_some_iff_getElem.mp h
  exact ⟨κ.slots[k], getElem?_eq_getElem hk, by simpa using hs⟩

theorem gprFind_none {n : Reg} (h : gprFind κ n = none) : Uncached κ n := by
  intro k s hk hs
  have := findIdx?_eq_none_iff.mp h s (mem_of_getElem? hk)
  simp [hs] at this

/-- A slot `gpr_alloc` may take: a free one, or one the instruction does not need. -/
def GprSlot.takable (s : GprSlot) : Prop := s.reg = none ∨ s.pinned = false

theorem gprVictim_takable {v : Option (Nat × Nat)} (h : gprVictim j v ss = some k) :
    (∃ i s, k = j + i ∧ ss[i]? = some s ∧ s.takable) ∨ ∃ l, v = some (k, l) := by
  induction ss generalizing j v with
  | nil =>
    cases v with
    | none => cases h
    | some p =>
      cases h
      exact .inr ⟨p.2, rfl⟩
  | cons s ss ih =>
    simp only [gprVictim] at h
    split at h
    case isTrue hfree =>
      cases h
      exact .inl ⟨0, s, rfl, rfl, .inl hfree⟩
    case isFalse _ =>
      rcases ih h with ⟨i, t, rfl, ht, htake⟩ | ⟨l, hl⟩
      · exact .inl ⟨i + 1, t, by omega, ht, htake⟩
      · -- the best so far is either this slot or the one it was called with
        split at hl
        case isTrue hb =>
          cases hl
          have hp : s.pinned = false := by
            rw [Bool.and_eq_true] at hb
            simpa using hb.1
          exact .inl ⟨0, s, rfl, rfl, .inr hp⟩
        case isFalse _ => exact .inr ⟨l, hl⟩

theorem gprVictim_isSome {v : Option (Nat × Nat)}
    (h : (∃ s ∈ ss, s.takable) ∨ v.isSome) : (gprVictim j v ss).isSome := by
  induction ss generalizing j v with
  | nil =>
    rcases h with ⟨s, hs, -⟩ | hv
    · cases hs
    · simpa [gprVictim] using hv
  | cons s ss ih =>
    simp only [gprVictim]
    split
    · rfl
    case isFalse hfree =>
      apply ih
      rcases h with ⟨t, ht, htake⟩ | hv
      · rcases mem_cons.mp ht with rfl | ht
        · right
          have hp : t.pinned = false := htake.resolve_left hfree
          cases v <;> simp [hp]
          split <;> rfl
        · exact .inl ⟨t, ht, htake⟩
      · right
        split
        · rfl
        · exact hv

namespace Wf
variable {used : Finset Reg} {P : List Reg} {κ : GprCache} {n : Reg} {k : Nat}

theorem length_le (hw : Wf used P κ) {L : Finset Reg}
    (h : ∀ s ∈ κ.slots, ∃ n ∈ L, s.reg = some n) : κ.slots.length ≤ L.card := by
  have hget (i : Nat) (hi : i < κ.slots.length) : ∃ n ∈ L, κ.slots[i].reg = some n :=
    h _ (getElem_mem hi)
  choose f hf using hget
  have hmaps : ∀ i : Fin κ.slots.length, f i i.isLt ∈ L := fun i => (hf i i.isLt).1
  have hinj : Function.Injective fun i : Fin κ.slots.length => f i i.isLt := by
    intro i j hij
    have hi := (hf i i.isLt).2
    have hj := (hf j j.isLt).2
    simp only at hij
    rw [← hij] at hj
    exact Fin.ext (hw.distinct (getElem?_eq_getElem i.isLt)
      (getElem?_eq_getElem j.isLt) hi hj)
  simpa using Finset.card_le_card_of_injOn (s := Finset.univ) _ (fun i _ => hmaps i)
    (hinj.injOn)

theorem takable (hw : Wf used P κ) (hP : P.length ≤ 2) (hn : n ∈ used) (hu : Uncached κ n) :
    ∃ s ∈ κ.slots, s.takable := by
  by_contra hnone
  push Not at hnone
  have htaken : ∀ s ∈ κ.slots, ∃ m, s.reg = some m ∧ s.pinned = true := by
    intro s hs
    have := hnone s hs
    simp only [GprSlot.takable, not_or, Bool.not_eq_false] at this
    exact ⟨_, eq_some_of_isSome (Option.isSome_iff_ne_none.mpr this.1), this.2⟩
  rcases hw.room with hroom | hroom
  · -- as many slots as registers: all of them would hold registers other than `n`
    have hle : κ.slots.length ≤ (used.erase n).card := by
      apply hw.length_le
      intro s hs
      obtain ⟨m, hm, -⟩ := htaken s hs
      obtain ⟨i, hi⟩ := getElem?_of_mem hs
      refine ⟨m, Finset.mem_erase.mpr ⟨?_, hw.inUse hi hm⟩, hm⟩
      rintro rfl
      exact hu _ _ hi hm
    have := Finset.card_erase_lt_of_mem hn
    omega
  · -- four slots: all of them would be pinned
    have hle : κ.slots.length ≤ P.toFinset.card := by
      apply hw.length_le
      intro s hs
      obtain ⟨m, hm, hp⟩ := htaken s hs
      obtain ⟨i, hi⟩ := getElem?_of_mem hs
      obtain ⟨q, hq, hqs⟩ := hw.pins hi hp
      exact ⟨q, mem_toFinset.mpr hq, hqs⟩
    have := P.toFinset_card_le
    omega

/-- `gpr_alloc` always finds a slot it may take, the fact its `k < 0` fallback relies on. -/
theorem victim (hw : Wf used P κ) (hP : P.length ≤ 2) (hn : n ∈ used) (hu : Uncached κ n) :
    ∃ s, κ.slots[(gprVictim 0 none κ.slots).getD 0]? = some s ∧ s.takable := by
  have hsome : (gprVictim 0 none κ.slots).isSome :=
    gprVictim_isSome (.inl (hw.takable hP hn hu))
  obtain ⟨k, hk⟩ := Option.isSome_iff_exists.mp hsome
  rcases gprVictim_takable hk with ⟨i, s, rfl, hs, htake⟩ | ⟨l, hl⟩
  · rw [hk]
    exact ⟨s, by simpa using hs, htake⟩
  · cases hl

theorem weaken (hw : Wf used P κ) (m : Reg) : Wf used (m :: P) κ :=
  { hw with
    pins := fun hk hp => by
      obtain ⟨n, hn, hs⟩ := hw.pins hk hp
      exact ⟨n, mem_cons_of_mem _ hn, hs⟩ }

theorem assign (hw : Wf used P κ) (hn : n ∈ used) (hu : Uncached κ n) :
    Wf used P (κ.update k fun s => { s with reg := some n, dirty := false, pinned := false }) where
  distinct := by
    intro i j s t m hi hj hs ht
    obtain ⟨s', hi', rfl⟩ := slot_of_update hi
    obtain ⟨t', hj', rfl⟩ := slot_of_update hj
    split_ifs at hs ht with hki hkj
    · exact hki.symm.trans hkj
    · cases hs
      exact absurd ht (hu _ _ hj')
    · cases ht
      exact absurd hs (hu _ _ hi')
    · exact hw.distinct hi' hj' hs ht
  inUse := by
    intro i s m hi hs
    obtain ⟨s', hi', rfl⟩ := slot_of_update hi
    split_ifs at hs
    · cases hs
      exact hn
    · exact hw.inUse hi' hs
  pins := by
    intro i s hi hp
    obtain ⟨s', hi', rfl⟩ := slot_of_update hi
    split_ifs at hp ⊢
    exact hw.pins hi' hp
  room := by
    rw [update_length]
    exact hw.room

theorem update (hw : Wf used P κ) {P' : List Reg} (hP : P ⊆ P') (hreg : ∀ s, (f s).reg = s.reg)
    (hpin : ∀ s, κ.slots[k]? = some s → (f s).pinned = true →
      s.pinned = true ∨ ∃ n ∈ P', s.reg = some n) (l : Nat) :
    Wf used P' { κ.update k f with lru := l } where
  distinct := by
    intro i j s t m hi hj hs ht
    obtain ⟨s', hi', rfl⟩ := slot_of_update hi
    obtain ⟨t', hj', rfl⟩ := slot_of_update hj
    rw [apply_ite GprSlot.reg, hreg, ite_self] at hs ht
    exact hw.distinct hi' hj' hs ht
  inUse := by
    intro i s m hi hs
    obtain ⟨s', hi', rfl⟩ := slot_of_update hi
    rw [apply_ite GprSlot.reg, hreg, ite_self] at hs
    exact hw.inUse hi' hs
  pins := by
    intro i s hi hp
    obtain ⟨s', hi', rfl⟩ := slot_of_update hi
    have hold (hp : s'.pinned = true) : ∃ n ∈ P', s'.reg = some n := by
      obtain ⟨n, hn, hs⟩ := hw.pins hi' hp
      exact ⟨n, hP hn, hs⟩
    split_ifs at hp ⊢ with hk
    · subst hk
      rw [hreg]
      exact (hpin s' hi' hp).elim hold id
    · exact hold hp
  room := by
    simpa using hw.room

theorem map (hw : Wf used P κ) {P' : List Reg} (hreg : ∀ s n, (g s).reg = some n → s.reg = some n)
    (hpin : ∀ s, (g s).pinned = true → s.pinned = true ∧ (g s).reg = s.reg ∧ P ⊆ P') :
    Wf used P' { κ with slots := κ.slots.map g } where
  distinct := by
    intro i j s t m hi hj hs ht
    obtain ⟨s', hi', rfl⟩ := slot_of_map hi
    obtain ⟨t', hj', rfl⟩ := slot_of_map hj
    exact hw.distinct hi' hj' (hreg _ _ hs) (hreg _ _ ht)
  inUse := by
    intro i s m hi hs
    obtain ⟨s', hi', rfl⟩ := slot_of_map hi
    exact hw.inUse hi' (hreg _ _ hs)
  pins := by
    intro i s hi hp
    obtain ⟨s', hi', rfl⟩ := slot_of_map hi
    obtain ⟨hp', hr, hP⟩ := hpin s' hp
    obtain ⟨n, hn, hs⟩ := hw.pins hi' hp'
    exact ⟨n, hP hn, hr.trans hs⟩
  room := by
    simpa using hw.room

end Wf

/-! ## 2. What the cache stands for -/

section
variable {M : Type}

/-- The host state `h` under the cache `κ` stands for the guest state `c`, register `e` excepted
(between the allocation of a destination and its write). `cpu->pc` is not looked at inside a
fragment. -/
structure Sync (e : Option Reg) (κ : GprCache) (h : HState M) (c : Cpu M) : Prop where
  cached : ∀ {k : Nat} {s : GprSlot} {n : Reg}, κ.slots[k]? = some s → s.reg = some n →
    e ≠ some n → h.reg (.slot k) = some ((c.gpr n).setWidth 64) ∧
      (s.dirty = false → h.cpu.gpr n = c.gpr n)
  uncached : ∀ {n : Reg}, e ≠ some n → Uncached κ n → h.cpu.gpr n = c.gpr n
  rest : { h.cpu with gpr := c.gpr, pc := c.pc } = c
  zero : c.gpr 0#5 = 0#32

/-- Two host states differ in the guest registers of `CPUState` at most. -/
structure SameButGpr (h h' : HState M) : Prop where
  reg : h'.reg = h.reg
  rest : { h'.cpu with gpr := h.cpu.gpr } = h.cpu

variable {h' h : HState M} {c : Cpu M}

theorem rest_congr (hs : { h'.cpu with gpr := h.cpu.gpr } = h.cpu)
    (hr : { h.cpu with gpr := c.gpr, pc := c.pc } = c) :
    { h'.cpu with gpr := c.gpr, pc := c.pc } = c := by
  rw [← hs] at hr
  exact hr

namespace Sync
variable {e : Option Reg} {κ κ' : GprCache} {h h' : HState M} {c : Cpu M} {n : Reg} {k : Nat}

theorem weaken (hs : Sync none κ h c) : Sync e κ h c :=
  { hs with
    cached := fun hk hn _ => hs.cached hk hn (by simp)
    uncached := fun _ hu => hs.uncached (by simp) hu }

theorem congr (hs : Sync e κ h c) (hreg : ∀ k, h'.reg (.slot k) = h.reg (.slot k))
    (hcpu : h'.cpu = h.cpu) : Sync e κ h' c where
  cached := by
    intro k s n hk hn he
    rw [hreg, hcpu]
    exact hs.cached hk hn he
  uncached := by
    intro n he hu
    rw [hcpu]
    exact hs.uncached he hu
  rest := by
    rw [hcpu]
    exact hs.rest
  zero := hs.zero

theorem update (hs : Sync e κ h c) (hreg : ∀ s, (f s).reg = s.reg)
    (hd : ∀ s, κ.slots[k]? = some s → s.reg = e ∨ (f s).dirty = s.dirty) (l : Nat) :
    Sync e { κ.update k f with lru := l } h c where
  cached := by
    intro j s n hj hn he
    obtain ⟨t, hj', rfl⟩ := slot_of_update hj
    split_ifs at hn ⊢ with hk
    · subst hk
      rw [hreg] at hn
      have hdirty : (f t).dirty = t.dirty :=
        (hd t hj').resolve_left fun h => he (h.symm.trans hn)
      rw [hdirty]
      exact hs.cached hj' hn he
    · exact hs.cached hj' hn he
  uncached := by
    intro n he hu
    refine hs.uncached he fun j s hj hn => ?_
    refine hu j (if k = j then f s else s) (by simp [hj]) ?_
    rwa [apply_ite GprSlot.reg, hreg, ite_self]
  rest := hs.rest
  zero := hs.zero

theorem map (hs : Sync e κ h c) (hreg : ∀ s, (g s).reg = s.reg)
    (hd : h.cpu.gpr = c.gpr ∨ ∀ s, (g s).dirty = s.dirty) :
    Sync e { κ with slots := κ.slots.map g } h c where
  cached := by
    intro j s n hj hn he
    obtain ⟨t, hj', rfl⟩ := slot_of_map hj
    rw [hreg] at hn
    obtain ⟨h₁, h₂⟩ := hs.cached hj' hn he
    refine ⟨h₁, fun hclean => ?_⟩
    rcases hd with hmem | hd
    · exact congrFun hmem n
    · exact h₂ ((hd t).symm.trans hclean)
  uncached := by
    intro n he hu
    refine hs.uncached he fun j s hj hn => ?_
    exact hu j (g s) (by simp [hj]) ((hreg s).trans hn)
  rest := hs.rest
  zero := hs.zero

theorem gpr_eq (hcpu : { h.cpu with pc := c.pc } = c) : h.cpu.gpr = c.gpr := by
  have := congrArg Cpu.gpr hcpu
  exact this

theorem of_memory (hκ : ∀ n, Uncached κ n) (hcpu : { h.cpu with pc := c.pc } = c)
    (h0 : c.gpr 0#5 = 0#32) : Sync none κ h c where
  cached := fun hk hn _ => absurd hn (hκ _ _ _ hk)
  uncached := fun _ _ => congrFun (gpr_eq hcpu) _
  rest := by
    rw [← gpr_eq hcpu]
    exact hcpu
  zero := h0

theorem write (hs : Sync (some n) κ h c) (hk : κ.slots[k]? = some s)
    (hn : s.reg = some n) (hdis : ∀ j t, κ.slots[j]? = some t → t.reg = some n → j = k)
    {v : Word} (hd : s.dirty = false → h.cpu.gpr n = v) (h0 : n ≠ 0#5) (f : Option (Word × Word)) :
    Sync none κ
      { h with reg := Function.update h.reg (.slot k) (some (v.setWidth 64)), flags := f }
      (c.setGpr n v) where
  cached := by
    intro j t m hj hm _
    by_cases hmn : m = n
    · subst hmn
      obtain rfl := hdis j t hj hm
      rw [hk] at hj
      cases hj
      refine ⟨by simp, fun hclean => ?_⟩
      simpa using hd hclean
    · have hjk : j ≠ k := by
        rintro rfl
        rw [hk] at hj
        cases hj
        exact hmn (some.inj (hm.symm.trans hn))
      have := hs.cached hj hm (fun h => hmn (some.inj h).symm)
      simpa [Function.update_apply, hjk, hmn] using this
  uncached := by
    intro m _ hu
    have hmn : m ≠ n := fun h => hu k s hk (h ▸ hn)
    have := hs.uncached (fun h => hmn (some.inj h).symm) hu
    simpa [hmn] using this
  rest := congrArg (fun d : Cpu M => d.setGpr n v) hs.rest
  zero := by
    rw [Cpu.setGpr_gpr, if_neg h0.symm, hs.zero]

end Sync

/-! ## 3. Saving slots -/

variable {R : Runtime M}

theorem exec_op {o : Op} (ho : o.exec R h = some h') :
    Instr.exec R (.op o) h = some (.next, h') := by
  simp [Instr.exec, ho, map_some]

/-- What holds of a slot under `Sync`: its host register, and `CPUState` if it is clean. -/
def SlotVal (k : Nat) (s : GprSlot) (h : HState M) (c : Cpu M) : Prop :=
  ∀ n, s.reg = some n → h.reg (.slot k) = some ((c.gpr n).setWidth 64) ∧
    (s.dirty = false → h.cpu.gpr n = c.gpr n)

theorem run_spill (hv : SlotVal k s h c) :
    ∃ h', runInstrs (exec R) (s.spill k) h = some (.next, h') ∧ SameButGpr h h' ∧
      ∀ n, h'.cpu.gpr n = if s.reg = some n then c.gpr n else h.cpu.gpr n := by
  cases hs : s.reg with
  | none => exact ⟨h, by simp [GprSlot.spill, hs], ⟨rfl, rfl⟩, by simp⟩
  | some m =>
    obtain ⟨hreg, hclean⟩ := hv m hs
    cases hd : s.dirty with
    | false =>
      refine ⟨h, by simp [GprSlot.spill, hs, hd], ⟨rfl, rfl⟩, fun n => ?_⟩
      by_cases hmn : m = n
      · subst hmn
        simpa using hclean hd
      · simp [hmn]
    | true =>
      have hval : h.val32 (.reg (.slot k)) = some (c.gpr m) := by
        simp [val32, hreg]
      refine ⟨h.setField (.gpr m) (c.gpr m), ?_, ⟨rfl, rfl⟩, fun n => ?_⟩
      · have hx : Op.exec R (.store32 (.gpr m) (.reg (.slot k))) h =
            some (h.setField (.gpr m) (c.gpr m)) := by
          simp [Op.exec, hval, map_some]
        simp [GprSlot.spill, hs, hd, runInstrs, exec_op hx]
      · simp only [setField, Cpu.setGpr_gpr, some.injEq]
        by_cases hmn : m = n
        · simp [hmn]
        · simp [hmn, Ne.symm hmn]

theorem run_flushCode (ss : List GprSlot) (k : Nat) (h : HState M)
    (hv : ∀ i s, ss[i]? = some s → SlotVal (k + i) s h c) :
    ∃ h', runInstrs (exec R) (flushCode k ss) h = some (.next, h') ∧ SameButGpr h h' ∧
      ∀ n, h'.cpu.gpr n = if ∃ s ∈ ss, s.reg = some n then c.gpr n else h.cpu.gpr n := by
  induction ss generalizing k h with
  | nil => exact ⟨h, rfl, ⟨rfl, rfl⟩, by simp⟩
  | cons s ss ih =>
    obtain ⟨h₁, hr₁, hsame₁, hg₁⟩ := run_spill (R := R) (hv 0 s rfl)
    have htail : ∀ i t, ss[i]? = some t → SlotVal (k + 1 + i) t h₁ c := by
      intro i t hi n hn
      obtain ⟨hreg, hclean⟩ := hv (i + 1) t (by simpa using hi) n hn
      rw [hsame₁.reg, hg₁ n]
      refine ⟨by rw [← hreg]; congr 2; omega, fun hd => ?_⟩
      split_ifs
      · rfl
      · exact hclean hd
    obtain ⟨h₂, hr₂, hsame₂, hg₂⟩ := ih (k + 1) h₁ htail
    refine ⟨h₂, (runInstrs_append hr₁).trans hr₂, ⟨hsame₂.reg.trans hsame₁.reg, ?_⟩, fun n => ?_⟩
    · have := hsame₁.rest
      rw [← hsame₂.rest] at this
      exact this
    · rw [hg₂ n, hg₁ n]
      by_cases hs : s.reg = some n
      · simp [hs]
      · simp [hs]

/-! ## 4. Specifications -/

/-- Between two emitted instructions: cache and host stand for `c`, and `R_CTRL` holds `x`. -/
structure Ok (used : Finset Reg) (P : List Reg) (x : Option (BitVec 64)) (κ : GprCache)
    (h : HState M) (c : Cpu M) : Prop where
  sync : Sync none κ h c
  wf : Wf used P κ
  ctrl : h.reg .ctrl = x

/-- The operand reads register `n`, and no allocation takes that away before the unpin. -/
def Holds (κ : GprCache) (a : Opnd) (n : Reg) : Prop :=
  (n = 0#5 ∧ a = .imm 0) ∨
    ∃ k s, a = .reg (.slot k) ∧ κ.slots[k]? = some s ∧ s.reg = some n ∧ s.pinned = true

def HReg.isSlot : HReg → Bool
  | .slot _ => true
  | _ => false

section
variable {used : Finset Reg} {P : List Reg} {x : Option (BitVec 64)} {κ : GprCache}
  {h : HState M} {c : Cpu M} {n : Reg} {Q : Unit → GprCache → HState M → Prop}

theorem Holds.val {a : Opnd} (ha : Holds κ a n) (hs : Sync none κ h c) :
    h.val32 a = some (c.gpr n) := by
  rcases ha with ⟨rfl, rfl⟩ | ⟨k, s, rfl, hk, hn, -⟩
  · rw [hs.zero]
    rfl
  · have := (hs.cached hk hn (by simp)).1
    simp [val32, this]

theorem Holds.val_congr {a : Opnd} (ha : Holds κ a n) (hreg : h'.reg = h.reg) :
    h'.val32 a = h.val32 a := by
  rcases ha with ⟨-, rfl⟩ | ⟨k, s, rfl, -⟩
  · rfl
  · simp [val32, hreg]

theorem wp_emitOp {o : Op}
    (ho : o.exec R h = some h') (hQ : Q () κ h') : wp (exec R) (emitOp o) Q κ h :=
  wp_emit (exec_op ho) hQ

/-- `gpr_alloc` finds the slot of the register, or makes one: whoever was in it is written back, and the
rest of the cache stays as it was. -/
theorem wp_gprAlloc {Q : Nat → GprCache → HState M → Prop} (hok : Ok used P x κ h c)
    (hP : P.length ≤ 2) (hn : n ∈ used)
    (hfound : ∀ k s, κ.slots[k]? = some s → s.reg = some n → gprFind κ n = some k → Q k κ h)
    (hmiss : ∀ k s κ' h', SameButGpr h h' → Wf used P κ' → Sync (some n) κ' h' c →
      κ'.slots[k]? = some s → s.reg = some n → h'.cpu.gpr n = c.gpr n →
      (∀ a m, Holds κ a m → Holds κ' a m) → gprFind κ n = none → Q k κ' h') :
    wp (exec R) (gprAlloc n) Q κ h := by
  refine wp_bind (wp_state ?_)
  cases hf : gprFind κ n with
  | some k =>
    obtain ⟨s, hk, hs⟩ := gprFind_some hf
    exact wp_pure (hfound k s hk hs hf)
  | none =>
    have hu := gprFind_none hf
    obtain ⟨s, hk, htake⟩ := hok.wf.victim hP hn hu
    generalize (gprVictim 0 none κ.slots).getD 0 = k at hk
    obtain ⟨h', hrun, hsame, hgpr⟩ := run_spill (R := R) (c := c) (k := k) (s := s) (h := h)
      (fun m hm => hok.sync.cached hk hm (by simp))
    have hevict : wp (exec R) (gprAlloc.evict k) (fun _ κ' h'' => κ' = κ ∧ h'' = h') κ h :=
      ⟨h', by simpa [gprAlloc.evict, hk] using hrun, rfl, rfl⟩
    refine wp_seq hevict ?_
    rintro _ _ _ ⟨rfl, rfl⟩
    refine wp_bind (wp_modify (wp_pure ?_))
    refine hmiss k { s with reg := some n, dirty := false, pinned := false } _ _ hsame
      (hok.wf.assign hn hu) ?_ ?_ rfl ?_ ?_ hf
    · refine ⟨?_, ?_, rest_congr hsame.rest hok.sync.rest, hok.sync.zero⟩
      · intro j t m hj hm hne
        obtain ⟨t', hj', rfl⟩ := slot_of_update hj
        split_ifs at hm ⊢ with hkj
        · exact absurd hm hne
        · obtain ⟨h₁, h₂⟩ := hok.sync.cached hj' hm (by simp)
          rw [hsame.reg, hgpr m]
          refine ⟨h₁, fun hd => ?_⟩
          split_ifs
          · rfl
          · exact h₂ hd
      · intro m hne hum
        rw [hgpr m]
        split_ifs with hsm
        · rfl
        · refine hok.sync.uncached (by simp) fun j t hj hm => ?_
          have hkj : k ≠ j := by
            rintro rfl
            rw [hk] at hj
            cases hj
            exact hsm hm
          exact hum j t (by simp [hj, hkj]) hm
    · simp [hk]
    · rw [hgpr n, if_neg (hu k s hk)]
      exact hok.sync.uncached (by simp) hu
    · -- a pinned slot is not the one taken
      rintro a m (h0 | ⟨j, t, rfl, hj, hm, hp⟩)
      · exact .inl h0
      · have hkj : k ≠ j := by
          rintro rfl
          rw [hk] at hj
          cases hj
          rcases htake with hnone | hfree
          · rw [hnone] at hm
            cases hm
          · rw [hfree] at hp
            cases hp
        exact .inr ⟨j, t, rfl, by simp [hj, hkj], hm, hp⟩

/-- `gpr_src`: an operand that reads the register, pinned until the unpin. -/
theorem wp_gprSrc {Q : Opnd → GprCache → HState M → Prop} (hok : Ok used P x κ h c)
    (hP : P.length ≤ 1) (hn : n ≠ 0#5 → n ∈ used)
    (hQ : ∀ a κ' h', Ok used (n :: P) x κ' h' c → Holds κ' a n →
      (∀ a m, Holds κ a m → Holds κ' a m) → (∀ r : HReg, r.isSlot = false → h'.reg r = h.reg r) →
      Q a κ' h') :
    wp (exec R) (gprSrc n) Q κ h := by
  unfold gprSrc
  split
  case isTrue h0 =>
    exact wp_pure (hQ _ _ _ ⟨hok.sync, hok.wf.weaken n, hok.ctrl⟩ (.inl ⟨h0, rfl⟩)
      (fun _ _ ha => ha) fun _ _ => rfl)
  case isFalse h0 =>
    -- after either path the slot holds the register, and only pinning is left
    have hpin : ∀ k s κ' h', Sync none κ' h' c → Wf used P κ' → κ'.slots[k]? = some s →
        s.reg = some n → (∀ a m, Holds κ a m → Holds κ' a m) →
        (∀ r : HReg, r.isSlot = false → h'.reg r = h.reg r) →
        wp (exec R) (do
          touch k fun s => { s with pinned := true }
          return Opnd.reg (.slot k)) Q κ' h' := by
      intro k s κ' h' hs hw hk hsn hkeep hreg
      refine wp_bind (wp_modify (wp_pure ?_))
      refine hQ _ _ _ ⟨hs.update ?_ ?_ _, hw.update ?_ ?_ ?_ _, ?_⟩ ?_ ?_ hreg
      · exact fun _ => rfl
      · exact fun _ _ => .inr rfl
      · exact subset_cons_self n P
      · exact fun _ => rfl
      · intro t ht _
        rw [hk] at ht
        cases ht
        exact .inr ⟨n, mem_cons_self, hsn⟩
      · rw [hreg _ rfl]
        exact hok.ctrl
      · exact .inr ⟨k, _, rfl, update_self hk _, hsn, rfl⟩
      · rintro a m ha
        rcases hkeep a m ha with hz | ⟨j, t, rfl, hj, hm, hp⟩
        · exact .inl hz
        · refine .inr ⟨j, if k = j then _ else t, rfl, by simp [hj]; rfl, ?_, ?_⟩
          · split_ifs <;> exact hm
          · split_ifs
            · rfl
            · exact hp
    refine wp_bind (wp_state ?_)
    cases hf : gprFind κ n with
    | some k =>
      obtain ⟨s, hk, hs⟩ := gprFind_some hf
      exact wp_bind (wp_pure (hpin k s κ h hok.sync hok.wf hk hs (fun _ _ ha => ha)
        fun _ _ => rfl))
    | none =>
      refine wp_bind (wp_gprAlloc hok (by omega) (hn h0) ?_ ?_)
      · intro k s _ _ hf'
        rw [hf] at hf'
        cases hf'
      · intro k s κ' h' hsame hw hs hk hsn hmem hkeep _
        have hload : Op.exec R (.mov32 (.slot k) (.mem (.gpr n))) h' =
            some (h'.set32 (.slot k) (c.gpr n)) := by
          simp [Op.exec, val32, field, hmem]
        refine wp_bind (wp_emitOp hload (wp_bind (wp_pure ?_)))
        have hwrite := hs.write hk hsn
          (fun j t hj ht => hw.distinct hj hk ht hsn) (fun _ => hmem) h0 none
        rw [Cpu.setGpr_self] at hwrite
        refine hpin k s κ' _ hwrite hw hk hsn hkeep fun r hr => ?_
        have hne : r ≠ .slot k := by
          rintro rfl
          cases hr
        show Function.update h'.reg (.slot k) _ r = h.reg r
        rw [Function.update_of_ne hne, hsame.reg]

/-- The destination is ready: writing it in the host writes `n` in the guest. -/
structure Dst (used : Finset Reg) (P : List Reg) (x : Option (BitVec 64)) (n : Reg) (d : HReg)
    (κ : GprCache) (h : HState M) (c : Cpu M) : Prop where
  wf : Wf used P κ
  ctrl : h.reg .ctrl = x
  ne_ctrl : d ≠ .ctrl
  sync : ∀ v f, Sync none κ
    { h with reg := Function.update h.reg d (some (v.setWidth 64)), flags := f } (c.writeBack n v)

theorem Dst.write {d : HReg} (hd : Dst used P x n d κ h c) (v : Word) :
    Ok used P x κ (h.set32 d v) (c.writeBack n v) where
  sync := hd.sync v none
  wf := hd.wf
  ctrl := by
    simp [set32, set64, hd.ne_ctrl.symm, hd.ctrl]

theorem wp_gprDst {Q : HReg → GprCache → HState M → Prop} (hok : Ok used P x κ h c)
    (hP : P.length ≤ 2) (hn : n ≠ 0#5 → n ∈ used)
    (hQ : ∀ d κ' h', Dst used P x n d κ' h' c → SameButGpr h h' → Q d κ' h') :
    wp (exec R) (gprDst n) Q κ h := by
  unfold gprDst
  split
  case isTrue h0 =>
    refine wp_pure (hQ _ _ _ ⟨hok.wf, hok.ctrl, by decide, fun v f => ?_⟩ ⟨rfl, rfl⟩)
    rw [Cpu.writeBack_eq hok.sync.zero, if_pos h0]
    exact hok.sync.congr (fun k => by simp) rfl
  case isFalse h0 =>
    -- the slot is marked dirty before the value is there
    have hmark : ∀ k s κ' h', Sync (some n) κ' h' c → Wf used P κ' → κ'.slots[k]? = some s →
        s.reg = some n → SameButGpr h h' →
        wp (exec R) (do
          touch k fun s => { s with dirty := true }
          return HReg.slot k) Q κ' h' := by
      intro k s κ' h' hs hw hk hsn hsame
      refine wp_bind (wp_modify (wp_pure ?_))
      have hwf : Wf used P _ := hw.update (k := k) (Subset.refl P)
        (f := fun s => { s with dirty := true, lru := κ'.lru + 1 })
        (fun _ => rfl) (fun _ _ hp => .inl hp) (κ'.lru + 1)
      refine hQ _ _ _ ⟨hwf, by rw [hsame.reg]; exact hok.ctrl, by simp, fun v f => ?_⟩ hsame
      rw [Cpu.writeBack_eq hok.sync.zero, if_neg h0]
      have hdirty := hs.update (k := k) (f := fun s => { s with dirty := true, lru := κ'.lru + 1 })
        (fun _ => rfl) (fun t ht => .inl (by rw [hk] at ht; cases ht; exact hsn)) (κ'.lru + 1)
      refine hdirty.write (update_self hk _) hsn ?_ (fun hd => by cases hd) h0 f
      intro j t hj ht
      exact hwf.distinct hj (update_self hk _) ht hsn
    refine wp_bind (wp_gprAlloc hok hP (hn h0) ?_ ?_)
    · intro k s hk hs _
      exact hmark k s κ h hok.sync.weaken hok.wf hk hs ⟨rfl, rfl⟩
    · intro k s κ' h' hsame hw hs hk hsn _ _ _
      exact hmark k s κ' h' hs hw hk hsn hsame

theorem wp_gprUnpin (hok : Ok used P x κ h c)
    (hQ : ∀ κ', Ok used [] x κ' h c → Q () κ' h) : wp (exec R) gprUnpin Q κ h := by
  refine wp_modify (hQ _ ⟨hok.sync.map (fun _ => rfl) (.inr fun _ => rfl), ?_, hok.ctrl⟩)
  exact hok.wf.map (fun _ _ hs => hs) (fun _ hp => by cases hp)

theorem wp_gprFlush (hok : Ok used P x κ h c)
    (hQ : ∀ κ' h', Ok used P x κ' h' c → { h'.cpu with pc := c.pc } = c → Q () κ' h') :
    wp (exec R) gprFlush Q κ h := by
  obtain ⟨h', hrun, hsame, hgpr⟩ := run_flushCode (R := R) (c := c) κ.slots 0 h
    (fun i s hi m hm => by simpa using hok.sync.cached hi hm (by simp))
  have hmem : h'.cpu.gpr = c.gpr := by
    funext m
    rw [hgpr m]
    split_ifs with hm
    · rfl
    · refine hok.sync.uncached (by simp) fun k s hk hs => ?_
      exact hm ⟨s, mem_of_getElem? hk, hs⟩
  have hrest := rest_congr hsame.rest hok.sync.rest
  have hsync : Sync none κ h' c := by
    refine ⟨fun hk hs _ => ⟨?_, fun _ => congrFun hmem _⟩, fun _ _ => congrFun hmem _, hrest,
      hok.sync.zero⟩
    rw [hsame.reg]
    exact (hok.sync.cached hk hs (by simp)).1
  have hclean (s : GprSlot) : s.clean.reg = s.reg ∧ s.clean.pinned = s.pinned := by
    unfold GprSlot.clean
    split <;> exact ⟨rfl, rfl⟩
  refine ⟨h', hrun, hQ _ _ ⟨hsync.map (fun s => (hclean s).1) (.inl hmem), ?_, ?_⟩ ?_⟩
  · refine hok.wf.map (fun s m hs => (hclean s).1.symm.trans hs) fun s hp => ?_
    exact ⟨(hclean s).2.symm.trans hp, (hclean s).1, Subset.refl P⟩
  · rw [hsame.reg]
    exact hok.ctrl
  · rw [← hmem] at hrest
    exact hrest

theorem wp_gprReset (hw : Wf used P κ)
    (hctrl : h.reg .ctrl = x) (hcpu : { h.cpu with pc := c.pc } = c) (h0 : c.gpr 0#5 = 0#32)
    (hQ : ∀ κ', Ok used [] x κ' h c → (∀ m, Uncached κ' m) → Q () κ' h) :
    wp (exec R) gprReset Q κ h := by
  have hfree : ∀ m, Uncached { κ with slots := κ.slots.map GprSlot.free } m := by
    intro m k s hk hs
    obtain ⟨t, -, rfl⟩ := slot_of_map hk
    cases hs
  refine wp_modify (hQ _ ⟨.of_memory hfree hcpu h0, ?_, hctrl⟩ hfree)
  exact hw.map (fun s m hs => by cases hs) (fun s hp => by cases hp)

end

end

end PsxRecomp.Jit
