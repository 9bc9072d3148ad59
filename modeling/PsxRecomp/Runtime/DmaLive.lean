import PsxRecomp.Lib.Runs
import PsxRecomp.Runtime.Dma

/-!
# `Runtime/DmaLive.lean` — busy channels complete

A channel that is busy and enabled should have something that will complete it: an asynchronous transfer
or a delayed completion. The transfer starts on `CHCR` writes only, and the enable bits are in `DPCR`;
so a channel that is started first and enabled afterwards stays busy for good
(`enable_after_start_wedges`). A second way is to turn the CD channel around while it runs: its slices
are then skipped. The invariant is per channel (`ChanOk`), since each operation of the controller
changes one channel (`Keeps`).
-/

set_option autoImplicit false

open Function

namespace PsxRecomp.Dma

open Option BitVec State Channel

section
variable {E : Type} {bus : Bus E}

/-! ## 1. One channel at a time -/

/-- `s'` differs from `s` in channel `ch` at most. -/
structure Keeps (ch : Fin 7) (s s' : State E) : Prop where
  channels : ∀ c, c ≠ ch → s'.channels c = s.channels c
  async : ∀ c, c ≠ ch → s'.async c = s.async c
  delayed : ∀ c, c ≠ ch → s'.delayed c = s.delayed c
  dpcr : s'.dpcr = s.dpcr

namespace Keeps
variable {ch : Fin 7} {s s' s'' : State E}

theorem refl (ch : Fin 7) (s : State E) : Keeps ch s s :=
  ⟨fun _ _ => rfl, fun _ _ => rfl, fun _ _ => rfl, rfl⟩

theorem trans (h : Keeps ch s s') (h' : Keeps ch s' s'') : Keeps ch s s'' where
  channels c hc := (h'.channels c hc).trans (h.channels c hc)
  async c hc := (h'.async c hc).trans (h.async c hc)
  delayed c hc := (h'.delayed c hc).trans (h.delayed c hc)
  dpcr := h'.dpcr.trans h.dpcr

theorem setChannel (ch : Fin 7) (s : State E) (c : Channel) : Keeps ch s (s.setChannel ch c) :=
  ⟨fun _ h => update_of_ne h _ _, fun _ _ => rfl, fun _ _ => rfl, rfl⟩

theorem setAsync (ch : Fin 7) (s : State E) (a : Async) : Keeps ch s (s.setAsync ch a) :=
  ⟨fun _ _ => rfl, fun _ h => update_of_ne h _ _, fun _ _ => rfl, rfl⟩

theorem setDelayed (ch : Fin 7) (s : State E) (d : Delayed) : Keeps ch s (s.setDelayed ch d) :=
  ⟨fun _ _ => rfl, fun _ _ => rfl, fun _ h => update_of_ne h _ _, rfl⟩

theorem enabled_eq (h : Keeps ch s s') (c : Fin 7) : s'.enabled c = s.enabled c := by
  rw [enabled, h.dpcr, enabled]

end Keeps

theorem Keeps.of_eq {s s' : State E} (ch : Fin 7) (hc : s'.channels = s.channels)
    (ha : s'.async = s.async) (hd : s'.delayed = s.delayed) (hp : s'.dpcr = s.dpcr) :
    Keeps ch s s' :=
  ⟨fun c _ => congrFun hc c, fun c _ => congrFun ha c, fun c _ => congrFun hd c, hp⟩

section
variable (before : Word) (s : State E)

@[simp] theorem raise_kept : (raiseOnMasterEdge bus before s).async = s.async ∧
    (raiseOnMasterEdge bus before s).delayed = s.delayed ∧
    (raiseOnMasterEdge bus before s).channels = s.channels ∧
    (raiseOnMasterEdge bus before s).dpcr = s.dpcr := by
  unfold raiseOnMasterEdge
  split <;> exact ⟨rfl, rfl, rfl, rfl⟩

end

section
variable (ch : Fin 7) (s : State E)

@[simp] theorem completeTransfer_channels : (completeTransfer bus ch s).channels =
    Function.update s.channels ch (s.channels ch).stop := by
  unfold completeTransfer
  split <;> simp [setChannel]

@[simp] theorem completeTransfer_kept : (completeTransfer bus ch s).async = s.async ∧
    (completeTransfer bus ch s).delayed = s.delayed ∧ (completeTransfer bus ch s).dpcr = s.dpcr := by
  unfold completeTransfer
  split <;> simp [setChannel]

theorem keeps_complete : Keeps ch s (completeTransfer bus ch s) := by
  refine ⟨fun c hc => ?_, by simp, by simp, by simp⟩
  rw [completeTransfer_channels, update_of_ne hc]

@[simp] theorem Channel.busy_stop (c : Channel) : c.stop.busy = false := by
  simp [busy, stop]

@[simp] theorem busy_complete : ((completeTransfer bus ch s).channels ch).busy = false := by
  simp

theorem keeps_cancel : Keeps ch s (cancelAsyncTransfer ch s) :=
  (Keeps.setAsync ch s {}).trans (Keeps.setDelayed ch _ {})

end

/-! ## 2. The invariant -/

def State.pending (s : State E) (ch : Fin 7) : Prop :=
  (s.async ch).active = true ∨ (s.delayed ch).active = true

/-- What a channel's asynchronous transfer and its timer say. -/
structure Books (ch : Fin 7) (s : State E) : Prop where
  transfer : (s.async ch).active = true → (ch = 0 ∨ ch = 1 ∨ ch = 3) ∧
    0 < (s.async ch).remainingWords ∧ (s.async ch).remainingWords ≤ dmaMaxTransferWords
  timer : (s.delayed ch).active = true → (ch = 2 ∨ ch = 4) ∧
    (s.delayed ch).cyclesRemaining ≤ uint32Max

/-- If the channel is busy and enabled, something will complete it. -/
def State.Live (s : State E) (ch : Fin 7) : Prop :=
  ch ≠ 5 → (s.channels ch).busy = true → s.enabled ch = true →
    s.pending ch ∧ (ch = 3 → (s.channels ch).direction = false)

structure ChanOk (ch : Fin 7) (s : State E) : Prop extends Books ch s where
  live : s.Live ch

/-- All that starting a channel or ending its transfer can do: its transfer and its timer stay as they
are, go away or start. -/
structure Effect (ch : Fin 7) (s s' : State E) : Prop extends Keeps ch s s' where
  transfer : (s'.async ch).active = true → s'.async ch = s.async ch ∨ (ch = 0 ∨ ch = 1 ∨ ch = 3) ∧
    ∃ n, 0 < n ∧ n ≤ dmaMaxTransferWords ∧ s'.async ch = ⟨true, n, n, 0⟩
  timer : (s'.delayed ch).active = true → s'.delayed ch = s.delayed ch ∨ (ch = 2 ∨ ch = 4) ∧
    0 < (s'.delayed ch).cyclesRemaining ∧ (s'.delayed ch).cyclesRemaining ≤ uint32Max
  live : s'.Live ch

section
variable {ch c : Fin 7} {s s' : State E}

theorem ChanOk.keeps (h : ChanOk c s) (hk : Keeps ch s s') (hne : c ≠ ch) : ChanOk c s' := by
  obtain ⟨⟨ht, hd⟩, hl⟩ := h
  rw [← hk.async c hne] at ht
  rw [← hk.delayed c hne] at hd
  refine ⟨⟨ht, hd⟩, ?_⟩
  rw [Live, pending, hk.channels c hne, hk.async c hne, hk.delayed c hne, hk.enabled_eq]
  exact hl

theorem Books.effect (h : Books ch s) (he : Effect ch s s') : ChanOk ch s' where
  transfer hact := by
    rcases he.transfer hact with ha | ⟨hch, n, h0, hmax, ha⟩ <;> rw [ha] at hact ⊢
    · exact h.transfer hact
    · exact ⟨hch, h0, hmax⟩
  timer hact := by
    rcases he.timer hact with hd | ⟨hch, -, hmax⟩
    · rw [hd] at hact ⊢
      exact h.timer hact
    · exact ⟨hch, hmax⟩
  live := he.live

theorem Effect.of_not_busy (hk : Keeps ch s s') (ha : s'.async ch = s.async ch ∨ s'.async ch = {})
    (hd : s'.delayed ch = s.delayed ch ∨ s'.delayed ch = {})
    (hb : (s'.channels ch).busy = false) : Effect ch s s' where
  toKeeps := hk
  transfer hact := ha.imp_right fun ha => by rw [ha] at hact; cases hact
  timer hact := hd.imp_right fun hd => by rw [hd] at hact; cases hact
  live _ hbusy := by
    rw [hb] at hbusy
    cases hbusy

theorem Effect.complete (ch : Fin 7) (s : State E) : Effect ch s (completeTransfer bus ch s) :=
  .of_not_busy (keeps_complete ch s) (.inl (by simp)) (.inl (by simp)) (busy_complete ch s)

theorem Effect.cancel (hb : (s.channels ch).busy = false) : Effect ch s (cancelAsyncTransfer ch s) :=
  .of_not_busy (keeps_cancel ch s) (.inr (update_self ..)) (.inr (update_self ..)) hb

theorem Effect.finish (hk : Keeps ch s s') :
    Effect ch s (completeTransfer bus ch (cancelAsyncTransfer ch s')) := by
  refine .of_not_busy ((hk.trans (keeps_cancel ch s')).trans (keeps_complete ch _)) (.inr ?_) (.inr ?_)
    (busy_complete ch _) <;> simp [cancelAsyncTransfer, setAsync, setDelayed]

theorem Effect.after {s₁ : State E} (h : Effect ch s₁ s') (hk : Keeps ch s s₁) (ha : s₁.async = s.async)
    (hd : s₁.delayed = s.delayed) : Effect ch s s' :=
  ⟨hk.trans h.toKeeps, ha ▸ h.transfer, hd ▸ h.timer, h.live⟩

end

/-! ## 3. The stages of a slice -/

/-- A stage of `dma_advance`: it works on channel `ch`, keeps its invariant and does not start it. -/
structure Stage (ch : Fin 7) (s s' : State E) : Prop extends Keeps ch s s' where
  ok : ChanOk ch s → ChanOk ch s'
  busy : (s.channels ch).busy = false → (s'.channels ch).busy = false

namespace Stage
variable {ch c : Fin 7} {s s' : State E}

theorem refl (ch : Fin 7) (s : State E) : Stage ch s s := ⟨.refl ch s, id, id⟩

theorem inv (h : Stage ch s s') (hs : ∀ c, ChanOk c s) (c : Fin 7) : ChanOk c s' := by
  by_cases hc : c = ch
  · subst hc
    exact h.ok (hs c)
  · exact (hs c).keeps h.toKeeps hc

theorem not_busy (h : Stage ch s s') (hb : (s.channels c).busy = false) :
    (s'.channels c).busy = false := by
  by_cases hc : c = ch
  · subst hc
    exact h.busy hb
  · rw [h.channels c hc]
    exact hb

theorem of_effect (h : Effect ch s s') (hb : (s'.channels ch).busy = false) : Stage ch s s' :=
  ⟨h.toKeeps, fun hs => hs.toBooks.effect h, fun _ => hb⟩

end Stage

section
variable {ch : Fin 7} {s s' : State E}

theorem ChanOk.progress (h : ChanOk ch s) (hp : s'.dpcr = s.dpcr)
    (hc : (s'.channels ch).chcr = (s.channels ch).chcr)
    (ha : (s'.async ch).active = (s.async ch).active)
    (hr : (s'.async ch).remainingWords ≤ (s.async ch).remainingWords)
    (hpos : 0 < (s.async ch).remainingWords → 0 < (s'.async ch).remainingWords)
    (hd : (s'.delayed ch).active = (s.delayed ch).active)
    (ht : (s'.delayed ch).cyclesRemaining ≤ (s.delayed ch).cyclesRemaining) : ChanOk ch s' where
  transfer hact := by
    obtain ⟨hch, h0, hmax⟩ := h.transfer (ha ▸ hact)
    exact ⟨hch, hpos h0, hr.trans hmax⟩
  timer hact := by
    obtain ⟨hch, hmax⟩ := h.timer (hd ▸ hact)
    exact ⟨hch, ht.trans hmax⟩
  live := by
    rw [Live, pending, ha, hd, busy, direction, hc, enabled, hp]
    exact h.live

theorem stage_delayed (cycles : Nat) (ch : Fin 7) (s : State E) :
    Stage ch s (advanceDelayedComplete bus cycles ch s) := by
  unfold advanceDelayedComplete
  split_ifs with hact hlt
  · exact .refl ch s
  · have hk := Keeps.setDelayed ch s
      { s.delayed ch with cyclesRemaining := (s.delayed ch).cyclesRemaining - cycles }
    refine ⟨hk, fun h => h.progress rfl rfl rfl le_rfl id ?_ ?_, id⟩ <;>
      simp [setDelayed]
  · have hk : Keeps ch s (completeTransfer bus ch (s.setDelayed ch {})) :=
      (Keeps.setDelayed ch s {}).trans (keeps_complete ch _)
    refine .of_effect (.of_not_busy hk (.inl ?_) (.inr ?_) (busy_complete ch _)) (busy_complete ch _) <;>
      simp [setDelayed]

variable {ready : E → Bool} {move : Word → E → E}

theorem moveWords_of_ready (hready : ∀ e, ready e = true) (step : Word) (n : Nat) (addr : Word)
    (e : E) : (moveWords ready move step n addr e).1 = n := by
  induction n generalizing addr e with
  | zero => rfl
  | succ n ih => simp [moveWords, hready, ih]

theorem stage_async (cyclesPerWord cycles : Nat) (ch : Fin 7) (s : State E) :
    Stage ch s (advanceAsync bus ready move cyclesPerWord cycles ch s) := by
  unfold advanceAsync
  extract_lets a accum r counted s₁ s₂
  have hk₁ : Keeps ch s s₁ :=
    (Keeps.setAsync ch s _ : Keeps ch s counted).trans (.of_eq ch rfl rfl rfl rfl)
  have hk₂ : Keeps ch s s₂ := (hk₁.trans (Keeps.setChannel ch _ _)).trans
    (Keeps.setAsync ch (s₁.setMadr ch r.2.1) _)
  split_ifs with h0 hend
  · refine ⟨hk₁, fun h => h.progress rfl rfl ?_ ?_ ?_ rfl le_rfl, id⟩ <;>
      simp [s₁, counted, a, setAsync]
  · exact .of_effect (.finish hk₂) (busy_complete ch _)
  · have hc : (s₂.channels ch).chcr = (s.channels ch).chcr := by
      simp [s₂, s₁, counted, setAsync, setMadr, setChannel]
    refine ⟨hk₂, fun h => h.progress rfl hc ?_ ?_ ?_ rfl le_rfl, fun hb => ?_⟩
    · simp [s₂, a, setAsync]
    · simp [s₂, a, setAsync]
    · intro _
      have hleft : (s₂.async ch).remainingWords = a.remainingWords - r.1 := by
        simp [s₂, setAsync]
      rw [hleft]
      exact Nat.pos_of_ne_zero hend
    · rw [busy, hc]
      exact hb

end

variable (bus) in
theorem stage_mdec (ch : Fin 7) (cycles : Nat) (s : State E) :
    Stage ch s (advanceMdecChannel bus ch cycles s) := by
  unfold advanceMdecChannel
  have hend : Stage ch s (completeTransfer bus ch (cancelAsyncTransfer ch s)) :=
    .of_effect (.finish (.refl ch s)) (busy_complete ch _)
  split_ifs
  all_goals first | exact .refl ch s | exact hend | exact stage_async _ _ ch s

variable (bus) in
theorem stage_cdrom (cycles : Nat) (s : State E) : Stage 3 s (advanceCdrom bus cycles s) := by
  unfold advanceCdrom
  split_ifs
  all_goals first | exact .refl 3 s | exact stage_async _ _ 3 s

def advanceDelayed (bus : Bus E) (cycles : Nat) (l : List (Fin 7)) (s : State E) : State E :=
  l.foldl (fun s ch => advanceDelayedComplete bus cycles ch s) s

section
variable {cycles : Nat} {l : List (Fin 7)} {s : State E} {ch : Fin 7}

theorem advanceDelayed_keeps {I : State E → Prop}
    (hI : ∀ d s, I s → I (advanceDelayedComplete bus cycles d s)) (h : I s) :
    I (advanceDelayed bus cycles l s) := by
  induction l generalizing s with
  | nil => exact h
  | cons d l ih => exact ih (hI d s h)

theorem advanceDelayed_not_busy (hb : (s.channels ch).busy = false) :
    ((advanceDelayed bus cycles l s).channels ch).busy = false :=
  advanceDelayed_keeps (I := fun s => (s.channels ch).busy = false)
    (fun d s => (stage_delayed cycles d s).not_busy) hb

theorem advanceDelayed_completes (hmem : ch ∈ l) (hact : (s.delayed ch).active = true)
    (hcyc : (s.delayed ch).cyclesRemaining ≤ cycles) :
    ((advanceDelayed bus cycles l s).channels ch).busy = false := by
  induction l generalizing s with
  | nil => cases hmem
  | cons head l ih =>
    by_cases hh : ch = head
    · have hdone : ((advanceDelayedComplete bus cycles head s).channels ch).busy = false := by
        rw [← hh, advanceDelayedComplete, if_neg (by simp [hact]), if_neg (by omega)]
        exact busy_complete ch _
      exact advanceDelayed_not_busy (l := l) hdone
    · have hd : (advanceDelayedComplete bus cycles head s).delayed ch = s.delayed ch :=
        (stage_delayed cycles head s).delayed ch hh
      refine ih ((List.mem_cons.mp hmem).resolve_left hh) ?_ ?_
      · rw [hd]
        exact hact
      · rw [hd]
        exact hcyc

end

theorem dmaAdvance_eq {cycles : Word} (h : cycles ≠ 0#32) (s : State E) :
    dmaAdvance bus cycles s = advanceDelayed bus cycles.toNat (List.finRange 7)
      (advanceCdrom bus cycles.toNat (advanceMdecChannel bus 1 cycles.toNat
        (advanceMdecChannel bus 0 cycles.toNat s))) :=
  if_neg h

structure StageInv (bus : Bus E) (I : State E → Prop) : Prop where
  mdec : ∀ d cycles s, d = 0 ∨ d = 1 → I s → I (advanceMdecChannel bus d cycles s)
  cdrom : ∀ cycles s, I s → I (advanceCdrom bus cycles s)
  delayed : ∀ d cycles s, I s → I (advanceDelayedComplete bus cycles d s)

theorem StageInv.advance {I : State E → Prop} {s : State E} (hI : StageInv bus I) (h : I s) (cycles : Word) :
    I (dmaAdvance bus cycles s) := by
  by_cases h0 : cycles = 0#32
  · rw [dmaAdvance, if_pos h0]
    exact h
  · rw [dmaAdvance_eq h0]
    exact advanceDelayed_keeps (hI.delayed · _)
      (hI.cdrom _ _ (hI.mdec 1 _ _ (.inr rfl) (hI.mdec 0 _ _ (.inl rfl) h)))

theorem dmaAdvance_inv (cycles : Word) {s : State E} (hs : ∀ c, ChanOk c s) (c : Fin 7) :
    ChanOk c (dmaAdvance bus cycles s) :=
  StageInv.advance (I := fun s => ∀ c, ChanOk c s) ⟨fun d n s _ => (stage_mdec bus d n s).inv,
    fun n s => (stage_cdrom bus n s).inv, fun d n s => (stage_delayed n d s).inv⟩ hs cycles c

/-! ## 4. Enough cycles -/

structure AlwaysReady (bus : Bus E) : Prop where
  mdecWrite : ∀ e, bus.mdecWriteReady e = true
  mdecRead : ∀ e, bus.mdecReadReady e = true
  cdrom : ∀ e, bus.cdromReady e = true

section
variable {ch : Fin 7} {s : State E} {cycles : Nat}

theorem async_completes {ready : E → Bool} {move : Word → E → E} {cyclesPerWord : Nat}
    (hready : ∀ e, ready e = true) (hpos : 0 < cyclesPerWord) (h : ChanOk ch s)
    (hact : (s.async ch).active = true) (hper : cyclesPerWord ≤ 14)
    (hcyc : 14 * (s.async ch).remainingWords ≤ cycles) :
    ((advanceAsync bus ready move cyclesPerWord cycles ch s).channels ch).busy = false := by
  obtain ⟨-, h0, hmax⟩ := h.transfer hact
  have hneed : (s.async ch).remainingWords * cyclesPerWord ≤ (s.async ch).charge cycles := by
    have hle : (s.async ch).remainingWords * cyclesPerWord ≤ (s.async ch).remainingWords * 14 :=
      Nat.mul_le_mul_left _ hper
    simp only [Async.charge, uint32Max, dmaMaxTransferWords] at hmax ⊢
    omega
  have hbudget : min (s.async ch).remainingWords ((s.async ch).charge cycles / cyclesPerWord)
      = (s.async ch).remainingWords :=
    min_eq_left ((Nat.le_div_iff_mul_le hpos).mpr hneed)
  rw [advanceAsync]
  simp only [hbudget, moveWords_of_ready hready, Nat.sub_self, if_true, if_neg (Nat.ne_of_gt h0)]
  exact busy_complete ch _

theorem mdec_completes (hready : AlwaysReady bus) (h : ChanOk ch s)
    (hbusy : (s.channels ch).busy = true) (hen : s.enabled ch = true)
    (hact : (s.async ch).active = true) (hcyc : 14 * (s.async ch).remainingWords ≤ cycles) :
    ((advanceMdecChannel bus ch cycles s).channels ch).busy = false := by
  rw [advanceMdecChannel, if_neg (by simp [hact]), if_neg (by simp [hbusy, hen])]
  split_ifs with hdir h0 hnot hnot
  · exact busy_complete ch _
  · simp [hready.mdecWrite] at hnot
  · exact async_completes hready.mdecWrite (by decide) h hact (by decide) hcyc
  · simp [hready.mdecRead] at hnot
  · exact async_completes hready.mdecRead (by decide) h hact (by decide) hcyc

theorem cdrom_completes (hready : AlwaysReady bus) (h : ChanOk 3 s)
    (hbusy : (s.channels 3).busy = true) (hen : s.enabled 3 = true)
    (hact : (s.async 3).active = true) (hdir : (s.channels 3).direction = false)
    (hcyc : 14 * (s.async 3).remainingWords ≤ cycles) :
    ((advanceCdrom bus cycles s).channels 3).busy = false := by
  rw [advanceCdrom, if_neg (by simp [cdromTransferActive, hact, hbusy, hen, hdir]),
    if_neg (by simp [hready.cdrom])]
  exact async_completes hready.cdrom (by decide) h hact (by decide) hcyc

end

/-- One `dma_advance`, if it is long enough, clears the channel. -/
def Completes (bus : Bus E) (s : State E) (ch : Fin 7) : Prop :=
  ∃ n : Word, ∀ m : Word, n ≤ m → ((dmaAdvance bus m s).channels ch).busy = false

/-- Each busy and enabled channel has a source that completes it once the devices are ready. -/
def NotWedged (bus : Bus E) (s : State E) : Prop :=
  ∀ ch, ch ≠ 5 → (s.channels ch).busy = true → s.enabled ch = true →
    s.pending ch ∧ (AlwaysReady bus → Completes bus s ch)

theorem exists_cycles {k : Nat} (h0 : 0 < k) (hk : k ≤ uint32Max) {P : Word → Prop}
    (h : ∀ m : Word, m ≠ 0#32 → k ≤ m.toNat → P m) : ∃ n : Word, ∀ m : Word, n ≤ m → P m := by
  have hlt : k < 2 ^ 32 := by
    simp only [uint32Max] at hk
    omega
  refine ⟨BitVec.ofNat 32 k, fun m hm => ?_⟩
  have hm' : k ≤ m.toNat := by
    rw [le_def, toNat_ofNat, Nat.mod_eq_of_lt hlt] at hm
    exact hm
  refine h m ?_ hm'
  rintro rfl
  exact absurd (h0.trans_le hm') (by simp)

section
variable {ch : Fin 7} {s : State E}

theorem completes_of_async (hready : AlwaysReady bus) (h : ChanOk ch s)
    (hbusy : (s.channels ch).busy = true) (hen : s.enabled ch = true)
    (hdir : ch = 3 → (s.channels ch).direction = false) (hact : (s.async ch).active = true) :
    Completes bus s ch := by
  obtain ⟨hch, h0, hmax⟩ := h.transfer hact
  refine exists_cycles (k := 14 * (s.async ch).remainingWords) (by omega) ?_ fun m hm hle => ?_
  · simp only [uint32Max, dmaMaxTransferWords] at hmax ⊢
    omega
  rw [dmaAdvance_eq hm]
  apply advanceDelayed_not_busy
  -- the channel's own stage completes it; the stages before it are about other channels
  have h₀ : Stage 0 s (advanceMdecChannel bus 0 m.toNat s) := stage_mdec ..
  have h₁ : Stage 1 _ (advanceMdecChannel bus 1 m.toNat (advanceMdecChannel bus 0 m.toNat s)) :=
    stage_mdec ..
  rcases hch with rfl | rfl | rfl
  · exact (stage_cdrom bus _ _).not_busy
      (h₁.not_busy (mdec_completes hready h hbusy hen hact hle))
  · refine (stage_cdrom bus _ _).not_busy (mdec_completes hready (h.keeps h₀.toKeeps (by decide)) ?_ ?_ ?_ ?_)
    · rwa [h₀.channels 1 (by decide)]
    · rwa [h₀.enabled_eq]
    · rwa [h₀.async 1 (by decide)]
    · rwa [h₀.async 1 (by decide)]
  · have hc := (h₁.channels 3 (by decide)).trans (h₀.channels 3 (by decide))
    have ha := (h₁.async 3 (by decide)).trans (h₀.async 3 (by decide))
    refine cdrom_completes hready ((h.keeps h₀.toKeeps (by decide)).keeps h₁.toKeeps (by decide))
      ?_ ?_ ?_ ?_ ?_
    · rwa [hc]
    · rwa [h₁.enabled_eq, h₀.enabled_eq]
    · rwa [ha]
    · rw [hc]
      exact hdir rfl
    · rwa [ha]

theorem completes_of_delayed (h : ChanOk ch s) (hact : (s.delayed ch).active = true) :
    Completes bus s ch := by
  obtain ⟨hch, hmax⟩ := h.timer hact
  refine exists_cycles (k := max 1 (s.delayed ch).cyclesRemaining) (by omega) ?_ fun m hm hle => ?_
  · simp only [uint32Max] at hmax ⊢
    omega
  rw [dmaAdvance_eq hm]
  have hd : (advanceCdrom bus m.toNat (advanceMdecChannel bus 1 m.toNat
      (advanceMdecChannel bus 0 m.toNat s))).delayed ch = s.delayed ch := by
    rw [(stage_cdrom bus m.toNat _).delayed ch (by rintro rfl; simp at hch),
      (stage_mdec bus 1 m.toNat _).delayed ch (by rintro rfl; simp at hch),
      (stage_mdec bus 0 m.toNat s).delayed ch (by rintro rfl; simp at hch)]
  apply advanceDelayed_completes (List.mem_finRange ch)
  · rwa [hd]
  · rw [hd]
    omega

theorem ChanOk.completes (h : ChanOk ch s) (hready : AlwaysReady bus) (hne : ch ≠ 5)
    (hbusy : (s.channels ch).busy = true) (hen : s.enabled ch = true) : Completes bus s ch := by
  obtain ⟨hpend, hdir⟩ := h.live hne hbusy hen
  rcases hpend with hact | hact
  · exact completes_of_async hready h hbusy hen hdir hact
  · exact completes_of_delayed h hact

theorem notWedged_of_chanOk (hs : ∀ c, ChanOk c s) : NotWedged bus s := fun ch hne hbusy hen =>
  ⟨((hs ch).live hne hbusy hen).1, fun hready => (hs ch).completes hready hne hbusy hen⟩

end

/-! ## 5. Register writes -/

section
variable {ch : Fin 7} {s s' : State E}

theorem transferWordCount_pos (hch : ch ≠ 3) : 0 < transferWordCount bus s ch := by
  unfold transferWordCount
  dsimp only
  split_ifs <;> first | omega | exact Nat.mul_pos (by omega) (by omega)

theorem Effect.unchanged (h : s.Live ch) : Effect ch s s :=
  ⟨.refl ch s, fun _ => .inl rfl, fun _ => .inl rfl, h⟩

theorem Effect.started (hch : ch = 0 ∨ ch = 1 ∨ ch = 3) {n : Nat} (h0 : 0 < n)
    (hmax : n ≤ dmaMaxTransferWords) (hdir : ch = 3 → (s.channels ch).direction = false) :
    Effect ch s (s.setAsync ch ⟨true, n, n, 0⟩) where
  toKeeps := .setAsync ch s _
  transfer _ := .inr ⟨hch, n, h0, hmax, update_self ..⟩
  timer _ := .inl rfl
  live _ _ _ := ⟨.inl (by simp [setAsync]), hdir⟩

theorem Effect.schedule (hch : ch = 2 ∨ ch = 4) (words cyclesPerWord : Nat) (s : State E) :
    Effect ch s (scheduleDelayedComplete bus ch words cyclesPerWord s) := by
  unfold scheduleDelayedComplete
  split_ifs with hzero
  · exact .complete ch s
  · refine ⟨.setDelayed ch s _, fun _ => .inl rfl, fun _ => .inr ⟨hch, ?_⟩, fun _ _ _ => ⟨.inr ?_, ?_⟩⟩
    · have hpos : 0 < words * cyclesPerWord := Nat.mul_pos (by omega) (by omega)
      simp only [setDelayed, update_self, uint32Max]
      omega
    · simp [setDelayed]
    · rintro rfl
      simp at hch

variable (bus) in
theorem executeCh2Gpu_state (s : State E) :
    ∃ m e, (executeCh2Gpu bus s).2 = { s.setMadr 2 m with env := e } := by
  unfold executeCh2Gpu
  dsimp only
  split_ifs
  · exact ⟨_, _, rfl⟩
  · exact ⟨(s.channels 2).madr, s.env, by simp [setMadr, setChannel]⟩
  all_goals exact ⟨_, _, rfl⟩

theorem startMdec_effect (hch : ch = 0 ∨ ch = 1) (hlen : lengthOk bus s ch = true) :
    Effect ch s (startAsyncMdecTransfer bus ch s) := by
  have hdir : ch = 3 → (s.channels ch).direction = false := by
    rintro rfl
    simp at hch
  have hmax : transferWordCount bus s ch ≤ dmaMaxTransferWords := by
    rcases hch with rfl | rfl <;> simpa [lengthOk] using hlen
  unfold startAsyncMdecTransfer
  split
  next hact => exact .unchanged fun _ _ _ => ⟨.inl hact, hdir⟩
  next =>
    refine .started (by tauto) (transferWordCount_pos ?_) hmax hdir
    rintro rfl
    simp at hch

theorem executeCh3_effect (hlen : lengthOk bus s 3 = true) : Effect 3 s (executeCh3Cdrom bus s) := by
  have hmax : transferWordCount bus s 3 ≤ dmaMaxTransferWords := by simpa [lengthOk] using hlen
  unfold executeCh3Cdrom
  split
  next =>
    refine .of_not_busy (.setChannel 3 s _) (.inl rfl) (.inl rfl) ?_
    simp [setChannel]
  next hdir =>
    have hdir' : (s.channels 3).direction = false := by simpa using hdir
    unfold startAsyncCdromTransfer
    split
    next hact => exact .unchanged fun _ _ _ => ⟨.inl hact, fun _ => hdir'⟩
    next =>
      dsimp only
      split
      next => exact .finish (.refl 3 s)
      next h0 => exact .started (by simp) (Nat.pos_of_ne_zero h0) hmax fun _ => hdir'

theorem Effect.moved (hch : ch = 2 ∨ ch = 4) {s₂ : State E} {m : Word} {e : E}
    (heq : s₂ = { s.setMadr ch m with env := e }) (words cyclesPerWord : Nat) :
    Effect ch s (scheduleDelayedComplete bus ch words cyclesPerWord s₂) := by
  subst heq
  have hk : Keeps ch s { s.setMadr ch m with env := e } :=
    (Keeps.setChannel ch s _).trans (.of_eq ch rfl rfl rfl rfl)
  exact (Effect.schedule hch words cyclesPerWord _).after hk rfl rfl

theorem tryExecute_effect (heq : tryExecute bus ch s = some s') : Effect ch s s' := by
  unfold tryExecute execute at heq
  dsimp only at heq
  split_ifs at heq with hbusy hen hlen
  · cases heq
    exact .unchanged fun _ hb => by simp [hb] at hbusy
  · cases heq
    exact .unchanged fun _ _ hen' => by simp [hen'] at hen
  · -- `s₁` is the state with the trigger bit cleared, in which the transfer is started
    set s₁ := s.setChannel ch { s.channels ch with chcr := (s.channels ch).chcr &&& 0xEFFFFFFF#32 }
    suffices hs : Effect ch s₁ s' from hs.after (.setChannel ch s _) rfl rfl
    have hlen' : lengthOk bus s₁ ch = true := by simpa using hlen
    clear_value s₁
    match ch with
    | 0 =>
      cases heq
      exact startMdec_effect (.inl rfl) hlen'
    | 1 =>
      cases heq
      exact startMdec_effect (.inr rfl) hlen'
    | 2 =>
      cases heq
      obtain ⟨m, e, hmoved⟩ := executeCh2Gpu_state bus s₁
      exact .moved (.inl rfl) hmoved _ _
    | 3 =>
      cases heq
      exact executeCh3_effect hlen'
    | 4 =>
      cases heq
      exact .moved (.inr rfl) rfl _ _
    | 5 => cases heq
    | 6 =>
      cases heq
      exact (Effect.complete 6 _).after (.of_eq 6 rfl rfl rfl rfl) rfl rfl

theorem getLsbD_merge (old val mask : Word) {i : Nat} (hi : i < 32) :
    (merge old val mask).getLsbD i = if mask.getLsbD i then val.getLsbD i else old.getLsbD i := by
  rw [merge, getLsbD_or, getLsbD_and, getLsbD_and, getLsbD_not]
  cases h : mask.getLsbD i <;> simp [hi]

/-- The two things a register write must not do: enable a busy channel that nothing will complete,
and turn around the CD channel while it runs. -/
def WriteOk (addr val mask : Word) (s : State E) : Prop :=
  match Reg.ofAddr addr with
  | .dpcr => ∀ ch, ch ≠ 5 → (s.channels ch).busy = true → s.enabled ch = false →
      (merge s.dpcr val mask).getLsbD (ch.val * 4 + 3) = true →
      s.pending ch ∧ (ch = 3 → (s.channels ch).direction = false)
  | .chcr ch => ch = 3 → mask.getLsbD 24 = false → (s.channels ch).busy = true →
      s.enabled ch = true → (merge (s.channels ch).chcr val mask).getLsbD 0 = false
  | _ => True

theorem writeChcr_ok {val mask : Word} (hs : ∀ c, ChanOk c s)
    (hok : ch = 3 → mask.getLsbD 24 = false → (s.channels ch).busy = true →
      s.enabled ch = true → (merge (s.channels ch).chcr val mask).getLsbD 0 = false)
    (heq : writeChcr bus ch val mask s = some s') (c : Fin 7) : ChanOk c s' := by
  unfold writeChcr at heq
  dsimp only at heq
  set s₁ := s.setChannel ch { s.channels ch with chcr := merge (s.channels ch).chcr val mask }
    with hs₁
  have hk : Keeps ch s s₁ := .setChannel ch s _
  suffices h : Effect ch s₁ s' by
    by_cases hc : c = ch
    · rw [hc]
      exact (hs ch).toBooks.effect (h.after hk rfl rfl)
    · exact (hs c).keeps (hk.trans h.toKeeps) hc
  split_ifs at heq with hlane hbusy
  · exact tryExecute_effect heq
  · cases heq
    exact .cancel (eq_false_of_ne_true hbusy)
  · rw [some.injEq] at heq
    subst heq
    -- the write does not reach the start bit
    have hch : (s₁.channels ch).chcr = merge (s.channels ch).chcr val mask := by
      simp [hs₁, setChannel]
    have hsame : (s₁.channels ch).busy = (s.channels ch).busy := by
      rw [busy, hch, getLsbD_merge _ _ _ (by decide), if_neg hlane, busy]
    refine .unchanged fun hne hbusy hen => ?_
    rw [hsame] at hbusy
    refine ⟨((hs ch).live hne hbusy hen).1, fun h3 => ?_⟩
    rw [direction, hch]
    exact hok h3 (eq_false_of_ne_true hlane) hbusy hen

theorem setChannel_chcr {v : Channel} (hv : v.chcr = (s.channels ch).chcr) (c : Fin 7) :
    ((s.setChannel ch v).channels c).chcr = (s.channels c).chcr := by
  by_cases hc : c = ch
  · rw [hc]
    simp [setChannel, hv]
  · simp [setChannel, hc]

theorem dmaWriteMasked_ok {addr val mask : Word} (hs : ∀ c, ChanOk c s)
    (hok : WriteOk addr val mask s) (heq : dmaWriteMasked bus addr val mask s = some s')
    (c : Fin 7) : ChanOk c s' := by
  unfold dmaWriteMasked at heq
  unfold WriteOk at hok
  cases hreg : Reg.ofAddr addr with
  | dpcr =>
    simp only [hreg, some.injEq] at heq hok
    subst heq
    refine ⟨⟨(hs c).transfer, (hs c).timer⟩, fun hne hbusy hen => ?_⟩
    by_cases hold : s.enabled c = true
    · exact (hs c).live hne hbusy hold
    · exact hok c hne hbusy (eq_false_of_ne_true hold) hen
  | dicr =>
    simp only [hreg, some.injEq] at heq
    subst heq
    refine (hs c).progress ?_ ?_ ?_ ?_ ?_ ?_ ?_ <;> simp
  | madr ch | bcr ch =>
    simp only [hreg, some.injEq] at heq
    subst heq
    refine (hs c).progress rfl (setChannel_chcr ?_ c) rfl le_rfl id rfl le_rfl
    rfl
  | chcr ch =>
    simp only [hreg] at heq hok
    exact writeChcr_ok hs hok heq c
  | none =>
    simp only [hreg, some.injEq] at heq
    subst heq
    exact hs c

end

/-! ## 6. Runs -/

/-- What happens to the controller: register writes, slices, and whatever its devices do meanwhile. -/
inductive Op (E : Type) where
  | write (addr val mask : Word)
  | advance (cycles : Word)
  | device (e : E)

def step (bus : Bus E) : Op E → State E → Option (State E)
  | .write addr val mask, s => dmaWriteMasked bus addr val mask s
  | .advance cycles, s => some (dmaAdvance bus cycles s)
  | .device e, s => some { s with env := e }

def OpOk : Op E → State E → Prop
  | .write addr val mask, s => WriteOk addr val mask s
  | _, _ => True

def IsReset (s : State E) : Prop := ∃ e, s = reset e

theorem step_ok {op : Op E} {s s' : State E} (hs : ∀ c, ChanOk c s) (hok : OpOk op s)
    (heq : step bus op s = some s') (c : Fin 7) : ChanOk c s' := by
  cases op with
  | write addr val mask => exact dmaWriteMasked_ok hs hok heq c
  | advance cycles =>
    cases heq
    exact dmaAdvance_inv cycles hs c
  | device e =>
    cases heq
    exact (hs c).progress rfl rfl rfl le_rfl id rfl le_rfl

theorem chanOk_reset (e : E) (c : Fin 7) : ChanOk c (reset e) where
  transfer h := by cases h
  timer h := by cases h
  live _ h := by simp [reset, busy] at h

/-- **No channel is wedged** in any state of a run whose register writes do neither (`WriteOk`): each
busy and enabled channel has its source, and one long enough `dma_advance` clears it when the devices
are ready. -/
theorem busy_channel_completes {s : State E} (h : Runs.Reached (step bus) OpOk IsReset s) :
    NotWedged bus s := by
  refine notWedged_of_chanOk (h.invariant (I := fun s => ∀ c, ChanOk c s) ?_ ?_)
  · rintro _ ⟨e, rfl⟩
    exact chanOk_reset e
  · intro op s s' hs hok heq
    exact step_ok hs hok heq

end

def nullBus : Bus Unit where
  readWord _ _ := 0
  writeWord e _ _ _ := e
  mdecWriteReady _ := true
  mdecWriteWord e _ := e
  mdecReadReady _ := true
  mdecReadWord e := (0, e)
  gpuRead e := (0, e)
  gpuWrite e _ _ := e
  spuWrite e _ := e
  cdromReady _ := true
  cdromRead e := (0, e)
  cdromSectorWords _ := 512
  markExecutable e _ := e
  irqRaise e _ := e

section
variable (s : State Unit) (val : Word)

theorem step_write_dpcr : step nullBus (.write 0x1F8010F0#32 val 0xFFFFFFFF#32) s =
    some { s with dpcr := merge s.dpcr val 0xFFFFFFFF#32 } := by
  rw [step]
  exact dmaWriteMasked_dpcr (by decide)

theorem step_write_chcr0 : step nullBus (.write 0x1F801088#32 val 0xFFFFFFFF#32) s =
    writeChcr nullBus 0 val 0xFFFFFFFF#32 s := by
  rw [step]
  exact dmaWriteMasked_chcr (by decide)

end

/-- Enable channel 0, then start it. -/
theorem busy_channel_completes_enabled : ∃ s, Runs.Reached (step nullBus) OpOk IsReset s ∧
    (s.channels 0).busy = true ∧ s.enabled 0 = true ∧ NotWedged nullBus s := by
  have h₀ : Runs.Reached (step nullBus) OpOk IsReset (reset ()) := .start ⟨(), rfl⟩
  have h₁ := h₀.next (by intro ch _ hb; simp [reset, busy] at hb)
    (step_write_dpcr (reset ()) 0x8#32)
  have h₂ := h₁.next (by intro h; cases h) ((step_write_chcr0 _ 0x01000201#32).trans rfl)
  exact ⟨_, h₂, rfl, rfl, busy_channel_completes h₂⟩

/-- Start channel 0, then enable it: nothing will complete it. -/
theorem enable_after_start_wedges :
    ∃ s, Runs.Reached (step nullBus) (fun _ _ => True) IsReset s ∧ ¬ NotWedged nullBus s := by
  have h₀ : Runs.Reached (step nullBus) (fun _ _ => True) IsReset (reset ()) := .start ⟨(), rfl⟩
  have h₁ := h₀.next trivial ((step_write_chcr0 (reset ()) 0x01000201#32).trans rfl)
  have h₂ := h₁.next trivial (step_write_dpcr _ 0x8#32)
  refine ⟨_, h₂, fun h => ?_⟩
  rcases (h 0 (by decide) rfl rfl).1 with hact | hact <;> cases hact

end PsxRecomp.Dma
