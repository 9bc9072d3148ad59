import PsxRecomp.Runtime.CdromMoves

/-!
# `Runtime/CdromSerial.lean` — CD responses one at a time

Immediate, queued, delayed and streaming responses share one flag, one FIFO and one latch. The log of a
run says when each of them came up, when the FIFO was cleared and when the interrupt line was raised.
-/

set_option autoImplicit false

namespace PsxRecomp.Cdrom

open CInt (wrap)

/-! ## 1. The log -/

/-- When the last response came up, if the line has not been raised for it -/
def unraised : List (Nat × Event) → Option Nat
  | [] => none
  | (t, .respond _ _) :: _ => some t
  | (_, .raise _ _) :: _ => none
  | _ :: log => unraised log

/-- No response comes up and the FIFO is not cleared while a response is unacknowledged. The line is
raised for an enabled, unacknowledged response, once for each, and not before 5000 cycles. -/
def Serialised : List (Nat × Event) → Prop
  | [] => True
  | (_, .respond _ unacked) :: log => unacked = 0#8 ∧ Serialised log
  | (_, .clear unacked) :: log => unacked = 0#8 ∧ Serialised log
  | (t, .raise flag enable) :: log =>
    (flag ≠ 0#8 ∧ enabled flag enable = true ∧ ∃ since, unraised log = some since ∧ since + 5000 ≤ t) ∧
      Serialised log
  | _ :: log => Serialised log

/-! ## 2. The invariant -/

def Armed (s : State) : Prop :=
  s.irqFlag ≠ 0#8 → s.latched = false →
    ∃ since : Nat, unraised s.log = some since ∧ (since : Int) + 5000 ≤ s.clock + s.presentDelay

def Sound (s : State) : Prop :=
  Serialised s.log ∧ Armed s ∧ (0 ≤ s.presentDelay ∧ s.presentDelay < 2147483648) ∧ s.irqFlag.toNat < 32

section
variable {disc : Disc} {s s' : State} {cycles : Nat}

theorem Sound.clear (h : Sound s) (h₀ : s.irqFlag = 0#8) : Sound (responseClear s) := by
  obtain ⟨hser, harmed, hrest⟩ := h
  exact ⟨⟨h₀, hser⟩, harmed, hrest⟩

theorem Sound.answered (h : Sound s) (h₀ : s.irqFlag = 0#8) {type : Byte} (htype : type.toNat < 32)
    (bytes : List Byte) : Sound (answered type bytes s) := by
  have hdelay : (0 : Int) ≤ 5000 ∧ (5000 : Int) < 2147483648 := by decide
  exact ⟨⟨h₀, h.1⟩, fun _ _ => ⟨s.clock, rfl, le_rfl⟩, hdelay, htype⟩

theorem Sound.raise (h : Sound s) (hdelay : s.presentDelay ≤ 0) (hflag : s.irqFlag ≠ 0#8)
    (henabled : enabled s.irqFlag s.irqEnable = true) (hlatched : s.latched = false) :
    Sound (note (.raise s.irqFlag s.irqEnable) { s with latched := true }) := by
  obtain ⟨hser, harmed, hpresent, hlt⟩ := h
  obtain ⟨since, hsince, hle⟩ := harmed hflag hlatched
  have hlate : since + 5000 ≤ s.clock := by omega
  exact ⟨⟨⟨hflag, henabled, since, hsince, hlate⟩, hser⟩, nofun, hpresent, hlt⟩

theorem agePresentDelay_bounds {delay : Int} (h : 0 ≤ delay ∧ delay < 2147483648)
    (hcycles : cycles < 2 ^ 32) :
    0 ≤ agePresentDelay delay cycles ∧ agePresentDelay delay cycles < 2147483648 ∧
      delay - cycles ≤ agePresentDelay delay cycles := by
  have hcount := countDown_cases h hcycles
  unfold agePresentDelay
  dsimp only
  split_ifs <;> omega

theorem Sound.age (h : Sound s) (hcycles : cycles < 2 ^ 32) : Sound (age cycles s) := by
  obtain ⟨hser, harmed, hpresent, hlt⟩ := h
  obtain ⟨hlo, hhi, hle⟩ := agePresentDelay_bounds hpresent hcycles
  refine ⟨hser, fun hflag hlatched => ?_, ⟨hlo, hhi⟩, hlt⟩
  obtain ⟨since, hsince, hdue⟩ := harmed hflag hlatched
  refine ⟨since, hsince, ?_⟩
  simp only [Cdrom.age]
  omega

theorem Sound.acked (h : Sound s) (val : Byte) : Sound (acked val s) := by
  obtain ⟨hser, harmed, hpresent, hlt⟩ := h
  have hlow : ∀ flag : Byte, flag.toNat < 32 → flag &&& 0x1F#8 = flag := by decide
  have hlt' : (s.irqFlag &&& ~~~(val &&& 0x1F#8)).toNat < 32 := lt_of_le_of_lt Nat.and_le_left hlt
  unfold Cdrom.acked
  dsimp only
  generalize hflag' : s.irqFlag &&& ~~~(val &&& 0x1F#8) = flag at hlt'
  refine ⟨hser, fun hflag hlatched => ?_, hpresent, hlt'⟩
  have hne : s.irqFlag ≠ 0#8 := by
    intro h₀
    rw [h₀, BitVec.zero_and] at hflag'
    exact hflag hflag'.symm
  rw [hlow flag hlt', if_neg (fun hc => hflag hc.2)] at hlatched
  exact harmed hne hlatched

/-! ## 3. Moves -/

theorem Sound.move (h : Sound s) (hm : Move s s') : Sound s' := by
  cases hm with
  | same hs =>
    cases hs
    exact h
  | clear h₀ => exact h.clear h₀
  | answer bytes h₀ _ htype => exact h.answered h₀ htype bytes
  | raise hdelay hflag henabled hlatched => exact h.raise hdelay hflag henabled hlatched
  | age hcycles => exact h.age hcycles
  | expire h₀ =>
    have hclear := h.clear h₀
    exact hclear
  | ack val _ => exact h.acked val
  | ackDequeue val =>
    have hacked := h.acked val
    exact hacked
  | setLoc _ _ _ | start _ _ | stop | schedule _ _ | wait _ _ | count _ _ | queue _ _ | dequeue | rate _ _ =>
    exact h

theorem Sound.sector (h : Sound s) (hm : Sector s s') : Sound s' := by
  cases hm with
  | silent d _ _ _ _ => exact h
  | @data cycles _ d bytes _ _ _ _ h₀ =>
    have hfetched : Sound (fetched d (streamed cycles s)) := h
    have hanswered := (hfetched.clear h₀).answered h₀ (show irqDataReady.toNat < 32 by decide) bytes
    exact hanswered

theorem Reachable.sound (h : Reachable disc s) : Sound s := by
  refine h.keeps (fun divisor rate dma => ?_) (fun _ _ => Sound.move) (fun _ _ => Sound.sector)
  have hdelay : (0 : Int) ≤ 0 ∧ (0 : Int) < 2147483648 := by decide
  have hflag : (0#8 : Byte).toNat < 32 := by decide
  exact ⟨trivial, fun hne => absurd rfl hne, hdelay, hflag⟩

end

/-- **CD responses are serialised**, in every run from `cdrom_init` on. A response which has not been
presented yet is the last one of the log, and its remaining delay and the cycles since it came up make
at least 5000 (`Sound`). -/
theorem responses_serialised {disc : Disc} {s : State} (h : Reachable disc s) : Serialised s.log :=
  h.sound.1

/-- `GetStat`, and the 5000 cycles its response waits -/
def getStatOps : List Op := [.command 0x01#8, .advance 4999#32, .advance 1#32]

theorem responses_serialised_getStat :
    (runOps blankDisc getStatOps (cdromInit blankDisc 1 32 false)).log =
        [(5000, .raise irqAck 0x1F#8), (0, .respond irqAck 0#8), (0, .clear 0#8)] ∧
      Serialised (runOps blankDisc getStatOps (cdromInit blankDisc 1 32 false)).log :=
  ⟨by decide +kernel, responses_serialised ((reachable_init blankDisc).runOps getStatOps)⟩

end PsxRecomp.Cdrom
