import PsxRecomp.Runtime.DmaLanes
import PsxRecomp.Runtime.DmaLength

/-!
# `Runtime/DmaEvents.lean` — the next event of the DMA controller

`dma_cycles_to_irq` tells the scheduler how long it may run without asking the controller, and the
scheduler then charges the cycles in slices of its own choice. The distance counts a word as a cycle,
which is never more than the word takes.

Over the devices of `DmaLanes`, whose readiness stays as it is. The transfer log, the exec depth and the
other diagnostics of `dma_advance` are left out.
-/

set_option autoImplicit false

open Function

namespace PsxRecomp.Dma

open List Option

/-! ## 1. Reachable states keep the pace -/

theorem cyclesPerWord_pos (ch : Fin 7) : 0 < cyclesPerWord ch := by
  unfold cyclesPerWord
  split_ifs <;> decide

variable {n : Nat}

section
variable {E : Type} {bus : Bus E} {s s' : State E} {ch : Fin 7}

theorem AllPaced.congr (h : AllPaced s) (ha : s'.async = s.async) (hd : s'.delayed = s.delayed) :
    AllPaced s' := by
  intro c
  rw [ha, hd]
  exact h c

theorem AllPaced.effect (h : AllPaced s) (he : Effect ch s s') : AllPaced s' := by
  intro c
  by_cases hc : c = ch
  · subst hc
    refine ⟨fun hact => ?_, fun hact => ?_⟩
    · rcases he.transfer hact with ha | ⟨hch, n, h0, hmax, ha⟩ <;> rw [ha] at hact ⊢
      · exact (h c).transfer hact
      · exact ⟨hch, h0, hmax, cyclesPerWord_pos c⟩
    · rcases he.timer hact with hd | hd
      · rw [hd] at hact ⊢
        exact (h c).timer hact
      · exact hd
  · rw [he.async c hc, he.delayed c hc]
    exact h c

theorem dmaWriteMasked_paced {addr val mask : Word} (h : AllPaced s)
    (heq : dmaWriteMasked bus addr val mask s = some s') : AllPaced s' := by
  unfold dmaWriteMasked at heq
  cases hreg : Reg.ofAddr addr with
  | dicr =>
    simp only [hreg, some.injEq] at heq
    subst heq
    exact h.congr (raise_kept ..).1 (raise_kept ..).2.1
  | chcr ch =>
    simp only [hreg, writeChcr] at heq
    split_ifs at heq with _ hbusy
    · exact AllPaced.effect (s := s.setChannel ch _) h (tryExecute_effect heq)
    · cases heq
      exact AllPaced.effect (s := s.setChannel ch _) h (.cancel (Bool.eq_false_of_not_eq_true hbusy))
    · cases heq
      exact h
  | dpcr | madr ch | bcr ch | none =>
    simp only [hreg, some.injEq] at heq
    subst heq
    exact h

end

variable {s : State Steady}

theorem AllPaced.advance (h : AllPaced s) (cycles : Word) :
    AllPaced (dmaAdvance steadyBus cycles s) := by
  by_cases h0 : cycles = 0#32
  · rw [dmaAdvance, if_pos h0]
    exact h
  · rw [dmaAdvance_turns h h0]
    exact h.turns _ _

theorem allPaced_of_reached
    (h : Runs.Reached (step steadyBus) (fun _ _ => True) IsReset s) : AllPaced s := by
  refine h.invariant (I := AllPaced) ?_ ?_
  · rintro _ ⟨e, rfl⟩ ch
    exact ⟨nofun, nofun⟩
  · intro op s s' hs _ heq
    cases op with
    | write addr val mask => exact dmaWriteMasked_paced hs heq
    | advance cycles =>
      cases heq
      exact hs.advance cycles
    | device e =>
      cases heq
      exact hs

/-! ## 2. The distance -/

def dmaCyclesToIrq {E : Type} (iMask : Word) (s : State E) : Nat :=
  if !iMask.getLsbD 3 then uint32Max
  else
    let best := ([0, 1, 3] : List (Fin 7)).foldl (fun best ch =>
      if !(s.async ch).active || (s.async ch).remainingWords == 0 then best
      else
        let est := (s.async ch).remainingWords - (s.async ch).cyclesAccum
        if est < best then est else best) uint32Max
    (List.finRange 7).foldl (fun best ch =>
      if (s.delayed ch).active && (s.delayed ch).cyclesRemaining < best then (s.delayed ch).cyclesRemaining
      else best) best

def unmasked : Word := 0xFFFFFFFF#32

/-- `n` cycles do not reach the end of the transfer or of the timer, at a cycle per word. -/
structure Lane.Distant (n : Nat) (l : Lane) : Prop where
  transfer : l.async.active = true → n + l.async.cyclesAccum < l.async.remainingWords
  timer : l.delayed.active = true → n < l.delayed.cyclesRemaining

open Lane

variable {m : Nat}

theorem Lane.Distant.mono {l : Lane} (h : l.Distant n) (hle : m ≤ n) : l.Distant m where
  transfer hact := by
    have := h.transfer hact
    omega
  timer hact := by
    have := h.timer hact
    omega

theorem lt_foldl_least {α : Type} {P : α → Prop} {f : Nat → α → Nat}
    (hf : ∀ b x, n < f b x ↔ n < b ∧ P x) (l : List α) (b : Nat) :
    n < l.foldl f b ↔ n < b ∧ ∀ x ∈ l, P x := by
  induction l generalizing b with
  | nil => simp
  | cons x l ih => rw [foldl_cons, ih, hf, forall_mem_cons, and_assoc]

theorem lt_dmaCyclesToIrq (h : AllPaced s) :
    n < dmaCyclesToIrq unmasked s ↔ n < uint32Max ∧ ∀ ch, (s.lane ch).Distant n := by
  have htransfers : ∀ b (ch : Fin 7), (n < if !(s.async ch).active || (s.async ch).remainingWords == 0 then b
      else if (s.async ch).remainingWords - (s.async ch).cyclesAccum < b then
        (s.async ch).remainingWords - (s.async ch).cyclesAccum else b) ↔
      n < b ∧ ((s.async ch).active = true → n + (s.async ch).cyclesAccum < (s.async ch).remainingWords) := by
    intro b ch
    cases hact : (s.async ch).active with
    | false => simp
    | true =>
      have hpos := ((h ch).transfer hact).2.1
      have hne : ((s.async ch).remainingWords == 0) = false := by
        rw [beq_eq_false_iff_ne]
        omega
      rw [hne, if_neg (by decide)]
      simp only [forall_const]
      split_ifs <;> omega
  have htimers : ∀ b (ch : Fin 7), (n < if (s.delayed ch).active && (s.delayed ch).cyclesRemaining < b then
      (s.delayed ch).cyclesRemaining else b) ↔
      n < b ∧ ((s.delayed ch).active = true → n < (s.delayed ch).cyclesRemaining) := by
    intro b ch
    cases hact : (s.delayed ch).active with
    | false => simp
    | true =>
      simp only [Bool.true_and, decide_eq_true_eq, forall_const]
      split_ifs <;> omega
  rw [dmaCyclesToIrq, if_neg (by decide), lt_foldl_least htimers, lt_foldl_least htransfers, and_assoc]
  refine and_congr_right fun _ => ⟨fun ⟨ht, hd⟩ ch => ⟨fun hact => ?_, hd ch (mem_finRange ch)⟩,
    fun hfar => ⟨fun ch _ => (hfar ch).transfer, fun ch _ => (hfar ch).timer⟩⟩
  have hch := ((h ch).transfer hact).1
  exact ht ch (by simpa using hch) hact

/-! ## 3. Before the distance is over -/

structure Lane.Alike (l l' : Lane) : Prop where
  chcr : l'.chan.chcr = l.chan.chcr
  transfer : l'.async.active = l.async.active
  timer : l'.delayed.active = l.delayed.active

theorem Lane.Alike.refl (l : Lane) : l.Alike l := ⟨rfl, rfl, rfl⟩

/-- No transfer has completed and no interrupt has been raised. -/
structure Quiet (s s' : State Steady) : Prop where
  lanes : ∀ ch, (s.lane ch).Alike (s'.lane ch)
  dicr : s'.dicr = s.dicr
  iStat : s'.env.iStat = s.env.iStat

theorem Quiet.refl (s : State Steady) : Quiet s s := ⟨fun _ => .refl _, rfl, rfl⟩

theorem Quiet.trans {s' s'' : State Steady} (h : Quiet s s') (h' : Quiet s' s'') : Quiet s s'' where
  lanes ch := ⟨(h'.lanes ch).chcr.trans (h.lanes ch).chcr, (h'.lanes ch).transfer.trans (h.lanes ch).transfer,
    (h'.lanes ch).timer.trans (h.lanes ch).timer⟩
  dicr := h'.dicr.trans h.dicr
  iStat := h'.iStat.trans h.iStat

theorem outcome_distant {l : Lane} {p : Phase} {k : Nat} (hfar : l.Distant (m + k)) (hp : p ≠ .wrongWay)
    (hmoves : ∀ c, p = .moves c → l.async.active = true ∧ 0 < c) (htimer : p = .timer → l.delayed.active = true) :
    (l.outcome m p).done = false ∧ (l.outcome m p).lane.Distant k ∧ l.Alike (l.outcome m p).lane := by
  cases p with
  | rest => exact ⟨rfl, hfar.mono (by omega), .refl l⟩
  | wrongWay => exact absurd rfl hp
  | moves c =>
    obtain ⟨hact, hc⟩ := hmoves c rfl
    have hend := hfar.transfer hact
    -- a word takes a cycle at least
    have hbudget : l.budget c m ≤ (l.async.cyclesAccum + m) / c := Nat.min_le_right _ _
    have hwords : l.budget c m ≤ l.budget c m * c := Nat.le_mul_of_pos_right _ hc
    have hspent : l.budget c m * c ≤ l.async.cyclesAccum + m :=
      (Nat.mul_le_mul_right c hbudget).trans (Nat.div_mul_le_self _ _)
    rw [outcome_going (by omega)]
    refine ⟨rfl, ⟨fun _ => ?_, fun hd => ?_⟩, chcr_advanced _ _, rfl, rfl⟩
    · dsimp only
      omega
    · have := hfar.timer hd
      dsimp only
      omega
  | timer =>
    have hend := hfar.timer (htimer rfl)
    rw [outcome, if_pos (by omega)]
    refine ⟨rfl, ⟨fun ha => ?_, fun _ => ?_⟩, rfl, rfl, rfl⟩
    · have := hfar.transfer ha
      dsimp only at *
      omega
    · dsimp only
      omega

variable {l : List (Fin 7)}

section
variable {s : State Steady} {ch : Fin 7} {m k : Nat}

theorem turn_distant (hfar : (s.lane ch).Distant (m + k)) (hw : s.phase ch ≠ .wrongWay) :
    Quiet s (turn m ch s) ∧ ((turn m ch s).lane ch).Distant k ∧
      ∀ c, (turn m ch s).phase c = s.phase c := by
  obtain ⟨hgoing, hnear, halike⟩ := outcome_distant hfar hw
    (fun c hc => by
      obtain ⟨hruns, -, rfl⟩ := phase_moves_iff.mp hc
      exact ⟨hruns.active, cyclesPerWord_pos ch⟩)
    fun ht => (phase_timer_iff.mp ht).2
  have hlatched := put_latched ch ((s.lane ch).outcome m (s.phase ch)) s
  rw [hgoing, latched_neg ch (by simp)] at hlatched
  refine ⟨⟨fun c => ?_, congrArg Prod.fst hlatched, congrArg Prod.snd hlatched⟩, ?_, fun c => ?_⟩
  · by_cases hc : c = ch
    · subst hc
      rw [turn, put_lane_self]
      exact halike
    · rw [turn, put_lane_of_ne hc]
      exact .refl _
  · rw [turn, put_lane_self]
    exact hnear
  · by_cases hc : c = ch
    · subst hc
      rw [turn, put_phase_self, phase_congr halike.transfer halike.timer halike.chcr]
      rfl
    · exact put_phase_of_ne hc _ s

theorem turns_distant (hl : l.Nodup) (hw : ∀ ch, s.phase ch ≠ .wrongWay)
    (hfar : ∀ ch ∈ l, (s.lane ch).Distant (m + k)) (hnear : ∀ ch, (s.lane ch).Distant k) :
    Quiet s (turns m l s) ∧ (∀ ch, (turns m l s).phase ch ≠ .wrongWay) ∧
      ∀ ch, ((turns m l s).lane ch).Distant k := by
  induction l generalizing s with
  | nil => exact ⟨.refl s, hw, hnear⟩
  | cons ch l ih =>
    obtain ⟨hnew, hl⟩ := nodup_cons.mp hl
    obtain ⟨hch, hfar⟩ := forall_mem_cons.mp hfar
    obtain ⟨hquiet, hself, hphase⟩ := turn_distant hch (hw ch)
    have hother : ∀ c, c ≠ ch → (turn m ch s).lane c = s.lane c := fun c hc => put_lane_of_ne hc _ s
    obtain ⟨hquiet', hw', hnear'⟩ := ih (s := turn m ch s) hl (fun c => hphase c ▸ hw c)
      (fun c hc => hother c (fun heq => hnew (heq ▸ hc)) ▸ hfar c hc) (fun c => by
        by_cases hc : c = ch
        · exact hc ▸ hself
        · exact hother c hc ▸ hnear c)
    exact ⟨hquiet.trans hquiet', hw', hnear'⟩

theorem slices_distant (hp : AllPaced s) (hw : ∀ ch, s.phase ch ≠ .wrongWay) {cs : List Word}
    (hfar : ∀ ch, (s.lane ch).Distant (cs.map BitVec.toNat).sum) : Quiet s (slices steadyBus cs s) := by
  induction cs generalizing s with
  | nil => exact .refl s
  | cons c cs ih =>
    rw [map_cons, sum_cons] at hfar
    have hstep : Quiet s (dmaAdvance steadyBus c s) ∧ (∀ ch, (dmaAdvance steadyBus c s).phase ch ≠ .wrongWay) ∧
        ∀ ch, ((dmaAdvance steadyBus c s).lane ch).Distant (cs.map BitVec.toNat).sum := by
      have hnear : ∀ ch, (s.lane ch).Distant (cs.map BitVec.toNat).sum := fun ch => (hfar ch).mono (by omega)
      by_cases h0 : c = 0#32
      · rw [dmaAdvance, if_pos h0]
        exact ⟨.refl s, hw, hnear⟩
      · rw [dmaAdvance_turns hp h0]
        exact turns_distant (by decide) hw (fun ch _ => hfar ch) hnear
    exact hstep.1.trans (ih (hp.advance c) hstep.2.1 hstep.2.2)

theorem turns_lane (hl : l.Nodup) (hmem : ch ∈ l) :
    (turns m l s).lane ch = ((s.lane ch).outcome m (s.phase ch)).lane := by
  have hrest : ∀ (l : List (Fin 7)) s, ch ∉ l → (turns m l s).lane ch = s.lane ch := by
    intro l
    induction l with
    | nil => exact fun _ _ => rfl
    | cons c l ih =>
      intro s hnot
      rw [mem_cons, not_or] at hnot
      exact (ih _ hnot.2).trans (put_lane_of_ne hnot.1 _ s)
  induction l generalizing s with
  | nil => cases hmem
  | cons c l ih =>
    obtain ⟨hnew, hl⟩ := nodup_cons.mp hl
    by_cases hc : ch = c
    · subst hc
      exact (hrest l _ hnew).trans (put_lane_self ..)
    · have hmem' : ch ∈ l := (mem_cons.mp hmem).resolve_left hc
      refine (ih (s := turn m c s) hl hmem').trans ?_
      rw [turn, put_lane_of_ne hc, put_phase_of_ne hc]

theorem not_quiet_of_wrongWay (hp : AllPaced s) (hw : WrongWay s ch) :
    ¬ Quiet s (slices steadyBus [1#32] s) := by
  intro hquiet
  have hmem : ch ∈ turnOrder := by
    rcases hw.2 with ⟨rfl, -⟩ | ⟨rfl, -⟩ <;> decide
  have hslice : dmaAdvance steadyBus 1#32 s = turns (1#32).toNat turnOrder s :=
    dmaAdvance_turns hp (by decide)
  have hidle := (hquiet.lanes ch).transfer
  rw [slices, foldl_cons, foldl_nil, hslice, turns_lane (by decide) hmem, phase_wrongWay_iff.mpr hw] at hidle
  cases hidle.trans hw.1.active

theorem slices_zero {cs : List Word} (h : (cs.map BitVec.toNat).sum = 0) : slices steadyBus cs s = s := by
  induction cs with
  | nil => rfl
  | cons c cs ih =>
    rw [map_cons, sum_cons] at h
    have h0 : c = 0#32 := BitVec.eq_of_toNat_eq (by rw [BitVec.toNat_ofNat]; omega)
    have hstep : dmaAdvance steadyBus c s = s := by rw [dmaAdvance, if_pos h0]
    rw [slices, foldl_cons, hstep]
    exact ih (by omega)

def Undisturbed (s : State Steady) : Prop :=
  ∀ cs : List Word, (cs.map BitVec.toNat).sum < max (dmaCyclesToIrq unmasked s) 1 →
    Quiet s (slices steadyBus cs s)

theorem undisturbed_iff (hp : AllPaced s) :
    Undisturbed s ↔ dmaCyclesToIrq unmasked s ≤ 1 ∨ ∀ ch, ¬ WrongWay s ch := by
  constructor
  · intro h
    by_contra hcon
    push Not at hcon
    obtain ⟨hfar, ch, hw⟩ := hcon
    exact not_quiet_of_wrongWay hp hw (h [1#32] (by simp; omega))
  · intro hor cs hsum
    by_cases hnear : dmaCyclesToIrq unmasked s ≤ 1
    · rw [slices_zero (by omega)]
      exact .refl s
    · have hnone := hor.resolve_left hnear
      refine slices_distant hp (fun ch hph => hnone ch (phase_wrongWay_iff.mp hph)) ?_
      exact ((lt_dmaCyclesToIrq hp).mp (by omega)).2

end

/-! ## 4. Cutting a slice in two -/

variable {i c : Nat} {x : Word}

section
variable {s t : State Steady} {ch : Fin 7} {a b : Nat}

theorem turns_comm (hnot : ch ∉ l) (hfree : ∀ c ∈ l, ¬ Stores c) (a b : Nat)
    (t : State Steady) : turn b ch (turns a l t) = turns a l (turn b ch t) := by
  induction l generalizing t with
  | nil => rfl
  | cons c l ih =>
    rw [mem_cons, not_or] at hnot
    obtain ⟨hc, hfree⟩ := forall_mem_cons.mp hfree
    refine (ih hnot.2 hfree (turn a c t)).trans ?_
    rw [turn_comm hnot.1 fun h => hc h.2]
    rfl

/-- What is left of two slices once channel 0, the first part of channel 1, and the two parts that may
not be swapped have been done -/
def remainder (a b : Nat) (t : State Steady) : State Steady :=
  turns b [2, 4] (turn b 3 (turns a [2, 4] t))

theorem turns_cut (hp : AllPaced s) (a b : Nat) :
    turns b turnOrder (turns a turnOrder s) =
        remainder a b (turn b 1 (turn a 3 (turn a 1 (turn (a + b) 0 s)))) ∧
      turns (a + b) turnOrder s =
        remainder a b (turn a 3 (turn b 1 (turn a 1 (turn (a + b) 0 s)))) := by
  have htimers : ∀ c : Fin 7, c ∈ [(2 : Fin 7), 4] → ¬ Stores c := by
    unfold Stores
    decide
  have hcomm : ∀ c d : Fin 7, ¬ Stores c → c ≠ d → ∀ m n t, turn m c (turn n d t) = turn n d (turn m c t) :=
    fun c d hc hne => turn_comm hne fun h => hc h.1
  have hsplit : ∀ t, turns a turnOrder t = turns a [2, 4] (turn a 3 (turn a 1 (turn a 0 t))) := fun _ => rfl
  constructor
  · have hzero : turn b 0 (turns a turnOrder s) =
        turns a [2, 4] (turn a 3 (turn a 1 (turn (a + b) 0 s))) := by
      have h₀ : ¬ Stores 0 := by unfold Stores; decide
      rw [hsplit, turns_comm (by decide) htimers, hcomm 0 3 h₀ (by decide), hcomm 0 1 h₀ (by decide),
        turn_turn (hp 0)]
    have hslice : turns b turnOrder (turns a turnOrder s) =
        turns b [2, 4] (turn b 3 (turn b 1 (turn b 0 (turns a turnOrder s)))) := rfl
    rw [hslice, hzero, turns_comm (by decide) htimers]
    rfl
  · have htail : ∀ t, AllPaced t → turns (a + b) [2, 4] t = turns b [2, 4] (turns a [2, 4] t) := by
      intro t ht
      show turn (a + b) 4 (turn (a + b) 2 t) = turn b 4 (turn b 2 (turn a 4 (turn a 2 t)))
      rw [hcomm 2 4 (htimers 2 (by decide)) (by decide) b a, turn_turn (ht 2), turn_turn ((ht.turn _ 2) 4)]
    have h₀ := hp.turn (a + b) 0
    have hslice : turns (a + b) turnOrder s =
        turns (a + b) [2, 4] (turn (a + b) 3 (turn (a + b) 1 (turn (a + b) 0 s))) := rfl
    rw [hslice, htail _ ((h₀.turn _ 1).turn _ 3), ← turn_turn ((h₀.turn _ 1) 3), ← turn_turn (h₀ 1),
      ← turns_comm (by decide) htimers]
    rfl

/-- Where a transfer stores its word `i` -/
def Channel.wordAt (c : Channel) (i : Nat) : Word := addrAfter c.addrStep i c.startAddr

theorem wordAt_advanced (c : Channel) (k i : Nat) : (c.advanced k).wordAt i = c.wordAt (k + i) := by
  rw [Channel.wordAt, Channel.wordAt, addrStep_advanced, startAddr_advanced, addrAfter_add]

theorem inRam_wordAt (c : Channel) (i : Nat) : InRam (c.wordAt i) := inRam_addrAfter (inRam_startAddr c) i

theorem mem_feed {step : Word} {data : Nat → Word} {p : Nat × Word} :
    p ∈ feed step data n x ↔ ∃ i < n, p = ((addrAfter step i x).toNat, data i) := by
  induction n generalizing x data with
  | zero => simp [feed]
  | succ n ih =>
    rw [feed, mem_cons, ih, Nat.exists_lt_succ_left]
    rfl

theorem take_comm {c d : Fin 7} (hc : Stores c) (hd : Stores d) (hne : c ≠ d) {cc cd : Channel}
    (hapart : ∀ i < m, ∀ j < n, cc.wordAt i ≠ cd.wordAt j) (e : Steady) :
    (e.take d cd.addrStep n cd.startAddr).take c cc.addrStep m cc.startAddr =
      (e.take c cc.addrStep m cc.startAddr).take d cd.addrStep n cd.startAddr := by
  have hwords : ∀ p ∈ feed cd.addrStep (e.data d) n cd.startAddr,
      ∀ q ∈ feed cc.addrStep (e.data c) m cc.startAddr, p.1 + 4 ≤ q.1 ∨ q.1 + 4 ≤ p.1 := by
    intro p hmem q hmem'
    obtain ⟨j, hj, rfl⟩ := mem_feed.mp hmem
    obtain ⟨i, hi, rfl⟩ := mem_feed.mp hmem'
    have hne : (cc.wordAt i).toNat ≠ (cd.wordAt j).toNat := fun heq =>
      hapart i hi j hj (BitVec.eq_of_toNat_eq heq)
    have hi := (inRam_wordAt cc i).toNat.2
    have hj := (inRam_wordAt cd j).toNat.2
    simp only [Channel.wordAt] at hne hi hj
    omega
  rw [take_of_stores hc, take_of_stores hd, take_of_stores hd, take_of_stores hc]
  unfold Steady.pop Steady.stored
  dsimp only
  rw [update_of_ne hne, update_of_ne (Ne.symm hne), update_comm hne]
  cases e.isolated with
  | true => rfl
  | false =>
    simp only [Bool.false_eq_true, if_false]
    rw [Ram.writeWords_comm hwords]

theorem outcome_words {l : Lane} (c n : Nat) : (l.outcome n (.moves c)).words = l.budget c n := by
  rw [outcome]
  split_ifs <;> rfl

theorem moves_of_words {l : Lane} {p : Phase} (h : i < (l.outcome n p).words) :
    ∃ c, p = .moves c ∧ i < l.budget c n := by
  cases p with
  | rest => cases h
  | wrongWay => cases h
  | moves c => exact ⟨c, rfl, outcome_words c n ▸ h⟩
  | timer =>
    rw [outcome] at h
    split_ifs at h <;> cases h

theorem turn_going (h : s.phase ch = .moves c)
    (hgoing : (s.lane ch).budget c a ≠ (s.lane ch).async.remainingWords) :
    (turn a ch s).lane ch = ⟨(s.lane ch).chan.advanced ((s.lane ch).budget c a), { (s.lane ch).async with
        remainingWords := (s.lane ch).async.remainingWords - (s.lane ch).budget c a
        cyclesAccum := (s.lane ch).async.cyclesAccum + a - (s.lane ch).budget c a * c }, (s.lane ch).delayed⟩ ∧
      (turn a ch s).phase ch = .moves c := by
  rw [turn, put_phase_self, put_lane_self, h, outcome_going hgoing]
  refine ⟨rfl, Eq.trans (phase_congr (l := s.lane ch) ?_ ?_ ?_ _ _) h⟩
  · rfl
  · rfl
  · exact chcr_advanced ..

theorem moves_of_turn (h : (turn a ch s).phase ch = .moves c) :
    s.phase ch = .moves c ∧ (s.lane ch).budget c a ≠ (s.lane ch).async.remainingWords := by
  have hidle : ((s.lane ch).outcome a (s.phase ch)).lane.async.active = true := by
    obtain ⟨hruns, -, -⟩ := phase_moves_iff.mp h
    have hact := hruns.active
    rw [show (turn a ch s).async ch = ((turn a ch s).lane ch).async from rfl, turn, put_lane_self] at hact
    exact hact
  cases hph : s.phase ch with
  | rest =>
    rw [turn_rest hph, hph] at h
    cases h
  | wrongWay =>
    rw [hph] at hidle
    cases hidle
  | timer =>
    obtain ⟨-, hserved, -⟩ := phase_moves_iff.mp h
    obtain ⟨hch, -⟩ := phase_timer_iff.mp hph
    rcases hch with rfl | rfl <;> simp [Served] at hserved
  | moves c' =>
    by_cases hdone : (s.lane ch).budget c' a = (s.lane ch).async.remainingWords
    · rw [hph, outcome_done hdone] at hidle
      cases hidle
    · cases (turn_going hph hdone).2.symm.trans h
      exact ⟨rfl, hdone⟩

end

/-- Channels 1 and 3 are both moving words, and a word of channel 3 is due before a word of channel 1 that
goes to the same address. -/
structure Crossing (s : State Steady) : Prop where
  mdec : Runs s 1 ∧ Served s 1
  cdrom : Runs s 3 ∧ Served s 3
  meet : ∃ i < (s.async 1).remainingWords, ∃ j < (s.async 3).remainingWords,
    (s.channels 1).wordAt i = (s.channels 3).wordAt j ∧
      j + 1 + (s.async 1).cyclesAccum < 14 * (i + 1)

section
variable {s : State Steady} {a b : Nat}



theorem turn_swap (hp : AllPaced s) (h : ¬ Crossing s) (a b : Nat) :
    turn b 1 (turn a 3 (turn a 1 s)) = turn a 3 (turn b 1 (turn a 1 s)) := by
  rw [turn.eq_1 a 3 (turn a 1 s), turn_eq_put (by decide), turn.eq_1 b 1 (turn a 1 s), turn_eq_put (by decide)]
  refine put_comm (by decide) (take_comm (.inl rfl) (.inr rfl) (by decide) ?_ _)
  intro i hi j hj heq
  obtain ⟨c, hph, hi⟩ := moves_of_words hi
  obtain ⟨c', hph', hj⟩ := moves_of_words hj
  obtain ⟨hph, hgoing⟩ := moves_of_turn hph
  obtain ⟨hruns, hserved, rfl⟩ := phase_moves_iff.mp hph
  have hlane₃ : (turn a 1 s).lane 3 = s.lane 3 := put_lane_of_ne (by decide) _ s
  rw [turn, put_phase_of_ne (by decide)] at hph'
  obtain ⟨hruns', hserved', rfl⟩ := phase_moves_iff.mp hph'
  have hlane₁ := (turn_going hph hgoing).1
  -- the words channel 1 has still to move begin behind those of the first slice
  set k := (s.lane 1).budget (cyclesPerWord 1) a with hk
  rw [channels_eq_lane, channels_eq_lane, hlane₁, hlane₃] at heq
  rw [wordAt_advanced] at heq
  rw [hlane₁] at hi
  rw [hlane₃] at hj
  have hzero := ((hp 3).transfer hruns'.active).2.2.2
  simp only [budget, State.lane, show cyclesPerWord 1 = 14 from rfl, show cyclesPerWord 3 = 1 from rfl,
    Nat.div_one] at hk hi hj hgoing hzero
  refine h ⟨⟨hruns, hserved⟩, ⟨hruns', hserved'⟩, k + i, ?_, j, ?_, heq, ?_⟩
  · omega
  · omega
  · omega

end

/-! ## 5. Words that cross -/

/-- The devices of channels 1 and 3 send one word over and over, and the cache is not isolated. -/
structure Repeats (v : Fin 7 → Word) (e : Steady) : Prop where
  stores : e.isolated = false
  data : ∀ ch i, e.data ch i = v ch

section
variable {v : Fin 7 → Word} {s : State Steady} {ch : Fin 7} {n : Nat}

theorem Repeats.turn (h : Repeats v s.env) (n : Nat) (ch : Fin 7) : Repeats v (turn n ch s).env := by
  have htake : ∀ step k x, Repeats v (s.env.take ch step k x) := by
    intro step k x
    by_cases hch : Stores ch
    · rw [take_of_stores hch]
      refine ⟨h.stores, fun c i => ?_⟩
      by_cases hc : c = ch
      · subst hc
        simpa [Steady.pop] using h.data c (i + k)
      · simpa [Steady.pop, hc] using h.data c i
    · rw [take_of_not_stores hch]
      exact h
  rw [Dma.turn, put_env]
  exact ⟨(htake _ _ _).stores, (htake _ _ _).data⟩

theorem Repeats.turns (h : Repeats v s.env) (n : Nat) (l : List (Fin 7)) : Repeats v (turns n l s).env := by
  induction l generalizing s with
  | nil => exact h
  | cons ch l ih => exact ih (h.turn n ch)

theorem turn_ram (h : Repeats v s.env) (hch : Stores ch) (n : Nat) : (turn n ch s).env.ram =
    Ram.writeWords s.env.ram (feed (s.channels ch).addrStep (fun _ => v ch)
      ((s.lane ch).outcome n (s.phase ch)).words (s.channels ch).startAddr) := by
  rw [turn, put_env, take_of_stores hch, funext (h.data ch)]
  show s.env.stored _ = _
  rw [Steady.stored, h.stores]
  rfl

theorem turn_ram_of_not_stores (hch : ¬ Stores ch) (n : Nat) : (turn n ch s).env.ram = s.env.ram := by
  rw [turn, put_env, take_of_not_stores hch]
  rfl

theorem leWord_turn (h : Repeats v s.env) (hp : Paced ch (s.async ch) (s.delayed ch)) (hch : Stores ch)
    (hph : s.phase ch = .moves c) (hi : i < (s.lane ch).budget c n) :
    Words.leWord (turn n ch s).env.ram ((s.channels ch).wordAt i).toNat = v ch := by
  have hmax := ((hp.transfer (phase_moves_iff.mp hph).1.active).2.2).1
  have hle : (s.lane ch).budget c n ≤ (s.async ch).remainingWords := Nat.min_le_left _ _
  rw [turn_ram h hch, hph, outcome_words]
  refine Ram.leWord_writeWords 0 ?_ ?_ (mem_feed.mpr ⟨i, hi, rfl⟩)
  · intro p hmem
    obtain ⟨j, -, rfl⟩ := mem_feed.mp hmem
    exact (inRam_wordAt (s.channels ch) j).toNat.2
  · rw [map_fst_feed]
    refine (nodup_addresses (addrStep_cases _) (inRam_startAddr _) ?_).map fun _ _ => BitVec.eq_of_toNat_eq
    simp only [dmaMaxTransferWords] at hmax
    omega

theorem leWord_turn_of_ne (h : Repeats v s.env) (hx : InRam x)
    (hne : Stores ch → ∀ i < ((s.lane ch).outcome n (s.phase ch)).words, (s.channels ch).wordAt i ≠ x) :
    Words.leWord (turn n ch s).env.ram x.toNat = Words.leWord s.env.ram x.toNat := by
  by_cases hch : Stores ch
  · rw [turn_ram h hch]
    refine Ram.leWord_writeWords_of_not_mem fun p hmem => ?_
    obtain ⟨i, hi, rfl⟩ := mem_feed.mp hmem
    have hapart : ((s.channels ch).wordAt i).toNat ≠ x.toNat := fun heq =>
      hne hch i hi (BitVec.eq_of_toNat_eq heq)
    have hi := (inRam_wordAt (s.channels ch) i).toNat.2
    have hx := hx.toNat.2
    simp only [Channel.wordAt] at hapart hi
    omega
  · rw [turn_ram_of_not_stores hch]

end

section
variable {v : Fin 7 → Word} {s w : State Steady} {a b : Nat}

theorem later_word {j : Nat} (hp : Paced 3 (w.async 3) (w.delayed 3)) (hph : w.phase 3 = .moves 1)
    (hj : j < (w.async 3).remainingWords)
    (hi : i < (((turn (j + 1) 3 w).lane 3).outcome b ((turn (j + 1) 3 w).phase 3)).words) :
    ((turn (j + 1) 3 w).channels 3).wordAt i ≠ (w.channels 3).wordAt j := by
  obtain ⟨c, hph', hi⟩ := moves_of_words hi
  obtain ⟨hc, hgoing⟩ := moves_of_turn hph'
  cases hph.symm.trans hc
  obtain ⟨-, -, hmax, hacc⟩ := hp.transfer (phase_moves_iff.mp hph).1.active
  have hbudget : (w.lane 3).budget 1 (j + 1) = j + 1 := by
    simp only [budget, State.lane, Nat.div_one, show cyclesPerWord 3 = 1 from rfl] at hacc ⊢
    omega
  have hlane := (turn_going hph hgoing).1
  rw [hlane] at hi
  simp only [budget, State.lane, dmaMaxTransferWords] at hi hmax
  intro heq
  rw [channels_eq_lane, hlane, wordAt_advanced] at heq
  have := addrAfter_inj (addrStep_cases _) (inRam_startAddr _) (by omega) (by omega) heq
  omega

theorem leWord_remainder {t : State Steady} (h : Repeats v t.env) (hx : InRam x)
    (hne : ∀ i < ((t.lane 3).outcome b (t.phase 3)).words, (t.channels 3).wordAt i ≠ x) :
    Words.leWord (remainder a b t).env.ram x.toNat = Words.leWord t.env.ram x.toNat := by
  have htimers : ∀ n (t : State Steady), (turns n [2, 4] t).env.ram = t.env.ram := by
    intro n t
    show (turn n 4 (turn n 2 t)).env.ram = _
    rw [turn_ram_of_not_stores (by unfold Stores; decide), turn_ram_of_not_stores (by unfold Stores; decide)]
  have hlane : (turns a [2, 4] t).lane 3 = t.lane 3 := by
    show (turn a 4 (turn a 2 t)).lane 3 = _
    rw [turn, put_lane_of_ne (by decide), turn, put_lane_of_ne (by decide)]
  have hphase : (turns a [2, 4] t).phase 3 = t.phase 3 := by
    show (turn a 4 (turn a 2 t)).phase 3 = _
    rw [turn, put_phase_of_ne (by decide), turn, put_phase_of_ne (by decide)]
  rw [remainder, htimers, leWord_turn_of_ne (h.turns a _) hx, htimers]
  rintro - i hi
  rw [hlane, hphase] at hi
  rw [channels_eq_lane, hlane]
  exact hne i hi

theorem leWord_last {x : State Steady} (hp : AllPaced x) (hr : Repeats v x.env) (hph₁ : x.phase 1 = .moves 14)
    (hph₃ : x.phase 3 = .moves 1) {j : Nat} (hi : i < (x.lane 1).budget 14 b)
    (hj : j < (x.async 3).remainingWords) (hmeet : (x.channels 1).wordAt i = (x.channels 3).wordAt j) :
    Words.leWord (remainder (j + 1) b (turn b 1 (turn (j + 1) 3 x))).env.ram
        ((x.channels 3).wordAt j).toNat = v 1 ∧
      Words.leWord (remainder (j + 1) b (turn (j + 1) 3 (turn b 1 x))).env.ram
        ((x.channels 3).wordAt j).toNat = v 3 := by
  have hy : InRam ((x.channels 3).wordAt j) := inRam_wordAt _ _
  constructor
  · -- channel 1 is last
    have hlane₃ : (turn b 1 (turn (j + 1) 3 x)).lane 3 = (turn (j + 1) 3 x).lane 3 := put_lane_of_ne (by decide) ..
    have hphase₃ : (turn b 1 (turn (j + 1) 3 x)).phase 3 = (turn (j + 1) 3 x).phase 3 :=
      put_phase_of_ne (by decide) ..
    have hlane₁ : (turn (j + 1) 3 x).lane 1 = x.lane 1 := put_lane_of_ne (by decide) ..
    have hphase₁ : (turn (j + 1) 3 x).phase 1 = .moves 14 := (put_phase_of_ne (by decide) ..).trans hph₁
    rw [leWord_remainder ((hr.turn _ 3).turn _ 1) hy fun k hk => by
      rw [hlane₃, hphase₃] at hk
      rw [channels_eq_lane, hlane₃]
      exact later_word (hp 3) hph₃ hj hk]
    rw [← hmeet, show x.channels 1 = (turn (j + 1) 3 x).channels 1 from congrArg chan hlane₁.symm]
    exact leWord_turn (hr.turn _ 3) ((hp.turn _ 3) 1) (.inl rfl) hphase₁ (hlane₁ ▸ hi)
  · -- channel 3 is last
    have hlane₃ : (turn b 1 x).lane 3 = x.lane 3 := put_lane_of_ne (by decide) ..
    have hphase₃ : (turn b 1 x).phase 3 = .moves 1 := (put_phase_of_ne (by decide) ..).trans hph₃
    have hchan : x.channels 3 = (turn b 1 x).channels 3 := congrArg chan hlane₃.symm
    have hasync : x.async 3 = (turn b 1 x).async 3 := congrArg async hlane₃.symm
    rw [hasync] at hj
    rw [leWord_remainder ((hr.turn _ 1).turn _ 3) hy fun k hk => by
      rw [hchan]
      exact later_word ((hp.turn _ 1) 3) hphase₃ hj hk]
    rw [hchan]
    refine leWord_turn (hr.turn _ 1) ((hp.turn _ 1) 3) (.inr rfl) hphase₃ ?_
    simp only [budget, State.lane, Nat.div_one]
    omega

theorem crossing_differs (hp : AllPaced s) (h : Crossing s) (hr : Repeats v s.env) (hv : v 1 ≠ v 3) :
    ∃ a b, 0 < a ∧ 0 < b ∧ a + b < 2 ^ 32 ∧ turns b turnOrder (turns a turnOrder s) ≠ turns (a + b) turnOrder s := by
  obtain ⟨i, hi, j, hj, hmeet, hlate⟩ := h.meet
  have hph₁ : s.phase 1 = .moves 14 := phase_moves_iff.mpr ⟨h.mdec.1, h.mdec.2, rfl⟩
  have hph₃ : s.phase 3 = .moves 1 := phase_moves_iff.mpr ⟨h.cdrom.1, h.cdrom.2, rfl⟩
  obtain ⟨-, -, hmax₁, hacc₁⟩ := (hp 1).transfer h.mdec.1.active
  obtain ⟨-, -, hmax₃, hacc₃⟩ := (hp 3).transfer h.cdrom.1.active
  simp only [dmaMaxTransferWords, show cyclesPerWord 1 = 14 from rfl, show cyclesPerWord 3 = 1 from rfl]
    at hmax₁ hacc₁ hmax₃ hacc₃
  obtain ⟨b, hb⟩ : ∃ b, 14 * (i + 1) = j + 1 + b + (s.async 1).cyclesAccum := ⟨_, (by omega :
    14 * (i + 1) = j + 1 + (14 * (i + 1) - (j + 1) - (s.async 1).cyclesAccum) + (s.async 1).cyclesAccum)⟩
  refine ⟨j + 1, b, by omega, by omega, by omega, fun heq => hv ?_⟩
  obtain ⟨hsplit, hwhole⟩ := turns_cut hp (j + 1) b
  set s₀ := turn (j + 1 + b) 0 s with hs₀
  have hlane₀ : ∀ c, c ≠ 0 → s₀.lane c = s.lane c := fun c hc => put_lane_of_ne hc _ s
  have hphase₀ : ∀ c, c ≠ 0 → s₀.phase c = s.phase c := fun c hc => put_phase_of_ne hc _ s
  have hp₀ : AllPaced s₀ := hp.turn _ 0
  have hr₀ : Repeats v s₀.env := hr.turn _ 0
  -- after the first slice channel 1 is in front of its word `i`
  have hgoing : (s₀.lane 1).budget 14 (j + 1) ≠ (s₀.lane 1).async.remainingWords := by
    rw [hlane₀ 1 (by decide)]
    simp only [budget, State.lane]
    omega
  obtain ⟨hlane₁, hphase₁⟩ := turn_going ((hphase₀ 1 (by decide)).trans hph₁) hgoing
  set x := turn (j + 1) 1 s₀ with hx
  have hlane₃ : x.lane 3 = s.lane 3 := (put_lane_of_ne (by decide) _ s₀).trans (hlane₀ 3 (by decide))
  have hphase₃ : x.phase 3 = .moves 1 :=
    (put_phase_of_ne (by decide) _ s₀).trans ((hphase₀ 3 (by decide)).trans hph₃)
  have hword : (x.channels 1).wordAt (i - (s₀.lane 1).budget 14 (j + 1)) = (x.channels 3).wordAt j := by
    rw [channels_eq_lane, channels_eq_lane, hlane₁, hlane₃, wordAt_advanced, hlane₀ 1 (by decide),
      Nat.add_sub_cancel' (by simp only [budget, State.lane]; omega)]
    exact hmeet
  have hdue : i - (s₀.lane 1).budget 14 (j + 1) < (x.lane 1).budget 14 b := by
    have hadd : (s₀.lane 1).budget 14 (j + 1 + b) = (s₀.lane 1).budget 14 (j + 1) + (x.lane 1).budget 14 b :=
      budget_add (by decide) hgoing (by rw [hlane₁]) (by rw [hlane₁])
    rw [hlane₀ 1 (by decide)] at hadd ⊢
    simp only [budget, State.lane] at hadd ⊢
    omega
  obtain ⟨hlast₁, hlast₃⟩ := leWord_last (hp₀.turn _ 1) (hr₀.turn _ 1) hphase₁ hphase₃ hdue
    (by rw [show x.async 3 = s.async 3 from congrArg async hlane₃]; exact hj) hword
  rw [← hlast₁, ← hlast₃, ← hsplit, ← hwhole, heq]

end

/-! ## 6. The law -/

/-- It does not matter how the cycles are cut into slices. -/
def Additive (s : State Steady) : Prop :=
  ∀ a b : Word, a.toNat + b.toNat < 2 ^ 32 →
    dmaAdvance steadyBus b (dmaAdvance steadyBus a s) = dmaAdvance steadyBus (a + b) s

def EventLaw (s : State Steady) : Prop := Undisturbed s ∧ Additive s

/-- Any register writes, slices and devices from reset on -/
def Reachable (s : State Steady) : Prop := Runs.Reached (step steadyBus) (fun _ _ => True) IsReset s

section
variable {s t : State Steady}

theorem Crossing.of_lanes (h : Crossing t) (h₁ : t.lane 1 = s.lane 1) (h₃ : t.lane 3 = s.lane 3)
    (hdpcr : t.dpcr = s.dpcr) (hready : t.env.ready = s.env.ready) : Crossing s := by
  have hchan : ∀ ch, t.lane ch = s.lane ch → t.channels ch = s.channels ch ∧ t.async ch = s.async ch :=
    fun ch heq => ⟨congrArg chan heq, congrArg async heq⟩
  have hmoves : ∀ ch, t.lane ch = s.lane ch → Runs t ch ∧ Served t ch → Runs s ch ∧ Served s ch := by
    rintro ch heq ⟨⟨hact, hbusy, hen⟩, hserved⟩
    rw [Served, (hchan ch heq).1, hready] at hserved
    rw [(hchan ch heq).2] at hact
    rw [(hchan ch heq).1] at hbusy
    rw [State.enabled, hdpcr] at hen
    exact ⟨⟨hact, hbusy, hen⟩, hserved⟩
  have hmeet := h.meet
  rw [(hchan 1 h₁).1, (hchan 1 h₁).2, (hchan 3 h₃).1, (hchan 3 h₃).2] at hmeet
  exact ⟨hmoves 1 h₁ h.mdec, hmoves 3 h₃ h.cdrom, hmeet⟩

theorem advance_advance (hp : AllPaced s) {a b : Word} (ha : a ≠ 0#32) (hb : b ≠ 0#32)
    (hlt : a.toNat + b.toNat < 2 ^ 32) :
    dmaAdvance steadyBus b (dmaAdvance steadyBus a s) = turns b.toNat turnOrder (turns a.toNat turnOrder s) ∧
      dmaAdvance steadyBus (a + b) s = turns (a.toNat + b.toNat) turnOrder s := by
  have hsum : (a + b).toNat = a.toNat + b.toNat := by
    rw [BitVec.toNat_add, Nat.mod_eq_of_lt hlt]
  have hne : a + b ≠ 0#32 := by
    intro heq
    have hzero : a.toNat + b.toNat = 0 := by rw [← hsum, heq]; rfl
    exact ha (BitVec.eq_of_toNat_eq (by rw [BitVec.toNat_ofNat]; omega))
  rw [dmaAdvance_turns hp ha, dmaAdvance_turns (hp.turns _ _) hb, dmaAdvance_turns hp hne, hsum]
  exact ⟨rfl, rfl⟩

theorem additive_of_not_crossing (hp : AllPaced s) (h : ¬ Crossing s) : Additive s := by
  intro a b hlt
  have hskip : ∀ t, dmaAdvance steadyBus 0#32 t = t := fun t => if_pos rfl
  by_cases ha : a = 0#32
  · rw [ha, hskip, BitVec.zero_add]
  by_cases hb : b = 0#32
  · rw [hb, hskip, BitVec.add_zero]
  obtain ⟨htwo, hone⟩ := advance_advance hp ha hb hlt
  rw [htwo, hone, (turns_cut hp _ _).1, (turns_cut hp _ _).2, turn_swap (hp.turn _ 0)]
  exact fun hc => h (hc.of_lanes (put_lane_of_ne (by decide) ..) (put_lane_of_ne (by decide) ..)
    (put_dpcr ..) (put_ready ..))

theorem not_additive_of_crossing (hp : AllPaced s) (h : Crossing s) :
    ∃ e : Steady, e.ready = s.env.ready ∧ ¬ Additive { s with env := e } := by
  let v : Fin 7 → Word := fun ch => if ch = 3 then 0xFFFFFFFF#32 else 0#32
  let e : Steady := { s.env with isolated := false, data := fun ch _ => v ch }
  refine ⟨e, rfl, fun hadd => ?_⟩
  have hp' : AllPaced { s with env := e } := hp
  obtain ⟨a, b, ha, hb, hlt, hdiff⟩ := crossing_differs hp' (h.of_lanes rfl rfl rfl rfl)
    (v := v) ⟨rfl, fun _ _ => rfl⟩ (by decide)
  have hword : ∀ n, 0 < n → n < 2 ^ 32 → ∃ w : Word, w ≠ 0#32 ∧ w.toNat = n := by
    intro n hpos hn
    have hw : (BitVec.ofNat 32 n).toNat = n := Nat.mod_eq_of_lt hn
    refine ⟨_, fun h0 => ?_, hw⟩
    rw [h0, BitVec.toNat_ofNat] at hw
    omega
  obtain ⟨a, ha', rfl⟩ := hword a ha (by omega)
  obtain ⟨b, hb', rfl⟩ := hword b hb (by omega)
  obtain ⟨htwo, hone⟩ := advance_advance hp' ha' hb' hlt
  exact hdiff (htwo.symm.trans ((hadd a b hlt).trans hone))

/-- **The law holds, whatever is in RAM and comes from the devices, exactly if** no transfer of two
words or more goes the wrong way and no words cross: before the distance is over no transfer completes
and no interrupt is raised, and it does not matter how the cycles are cut into slices. An MDEC transfer
against the direction of its channel is finished by the next slice, however short (`WrongWay`); and
where channels 1 and 3 store into the same word, one slice does it in one order and two in the other
(`Crossing`), since within a slice channel 1 is always first. -/
theorem event_law_iff (h : Reachable s) :
    (∀ e : Steady, e.ready = s.env.ready → EventLaw { s with env := e }) ↔
      (dmaCyclesToIrq unmasked s ≤ 1 ∨ ∀ ch, ¬ WrongWay s ch) ∧ ¬ Crossing s := by
  have hp := allPaced_of_reached h
  constructor
  · intro hlaw
    refine ⟨(undisturbed_iff hp).mp (hlaw s.env rfl).1, fun hc => ?_⟩
    obtain ⟨e, hready, hnot⟩ := not_additive_of_crossing hp hc
    exact hnot (hlaw e hready).2
  · rintro ⟨hway, hcross⟩ e hready
    have hp' : AllPaced { s with env := e } := hp
    refine ⟨(undisturbed_iff hp').mpr (hway.imp_right fun hnone ch hw => ?_),
      additive_of_not_crossing hp' fun hc => hcross (hc.of_lanes rfl rfl rfl hready)⟩
    exact hnone ch ⟨⟨hw.1.active, hw.1.busy, hw.1.enabled⟩, hw.2⟩

end

/-- Whole words written to registers, one after the other -/
def writes (l : List (Word × Word)) (s : State Steady) : Option (State Steady) :=
  l.foldlM (fun s p => dmaWriteMasked steadyBus p.1 p.2 0xFFFFFFFF#32 s) s

theorem Reachable.writes {s' : State Steady} (h : Reachable s) {l : List (Word × Word)}
    (heq : writes l s = some s') : Reachable s' := by
  induction l generalizing s with
  | nil =>
    cases heq
    exact h
  | cons p l ih =>
    obtain ⟨s₁, h₁, hrest⟩ := bind_eq_some_iff.mp heq
    exact ih (Runs.Reached.next (a := .write p.1 p.2 0xFFFFFFFF#32) h trivial h₁) hrest

/-- Devices that are ready, with a word each for channels 1 and 3 -/
def readyDevices : Steady where
  ram _ := 0
  isolated := false
  ready := ⟨true, true, true⟩
  data ch _ := if ch = 3 then 0xFFFFFFFF#32 else 0#32
  sectorWords := 512
  iStat := 0#32

theorem reachable_ready : Reachable (reset readyDevices) := .start ⟨_, rfl⟩

/-- Four words from the CD -/
theorem event_law_cdrom : ∃ s, Reachable s ∧ Runs s 3 ∧ Served s 3 ∧ dmaCyclesToIrq unmasked s = 4 ∧
    ∀ e : Steady, e.ready = s.env.ready → EventLaw { s with env := e } := by
  obtain ⟨s, hs⟩ : ∃ s, writes [(0x1F8010F0#32, 0x8000#32), (0x1F8010B4#32, 4#32), (0x1F8010B8#32, 0x01000000#32)]
      (reset readyDevices) = some s := ⟨_, rfl⟩
  have hreach := reachable_ready.writes hs
  cases hs
  refine ⟨_, hreach, ⟨rfl, rfl, rfl⟩, .inr (.inr ⟨rfl, rfl, rfl⟩), rfl, (event_law_iff hreach).mpr ⟨.inr ?_, ?_⟩⟩
  · rintro ch ⟨⟨hact, -, -⟩, hch⟩
    rcases hch with ⟨rfl, -⟩ | ⟨rfl, -⟩ <;> cases hact
  · rintro ⟨⟨⟨hact, -, -⟩, -⟩, -⟩
    cases hact

/-- Two words to the MDEC, against the direction of the channel: due in two cycles, and over after one.
A word from the MDEC and one from the CD, to the same address: what is there after fourteen cycles depends on
whether the first was a slice of its own. -/
theorem wrong_way_and_crossing :
    (∃ s, Reachable s ∧ dmaCyclesToIrq unmasked s = 2 ∧ (s.channels 0).busy = true ∧
      ((dmaAdvance steadyBus 1#32 s).channels 0).busy = false) ∧
    ∃ s, Reachable s ∧
      Words.leWord (dmaAdvance steadyBus 13#32 (dmaAdvance steadyBus 1#32 s)).env.ram 0 = 0#32 ∧
      Words.leWord (dmaAdvance steadyBus 14#32 s).env.ram 0 = 0xFFFFFFFF#32 := by
  constructor
  · obtain ⟨s, hs⟩ : ∃ s, writes [(0x1F8010F0#32, 0x8#32), (0x1F801084#32, 2#32), (0x1F801088#32, 0x01000000#32)]
        (reset readyDevices) = some s := ⟨_, rfl⟩
    have hreach := reachable_ready.writes hs
    cases hs
    exact ⟨_, hreach, rfl, rfl, rfl⟩
  · obtain ⟨s, hs⟩ : ∃ s, writes [(0x1F8010F0#32, 0x8080#32), (0x1F801094#32, 1#32), (0x1F801098#32, 0x01000000#32),
        (0x1F8010B4#32, 1#32), (0x1F8010B8#32, 0x01000000#32)] (reset readyDevices) = some s := ⟨_, rfl⟩
    have hreach := reachable_ready.writes hs
    cases hs
    exact ⟨_, hreach, rfl, rfl⟩

end PsxRecomp.Dma
