import Mathlib.Algebra.BigOperators.Group.List.Basic
import PsxRecomp.Runtime.SioCard

/-!
# `Runtime/SioRoundTrip.lean` — a host that writes a sector reads it back

The other half of what the serial port does to the cards: a host that selects a slot, sends the bytes of
a write one after the other and leaves the shifter its cycles between them, then deselects and sends the
bytes of a read, gets back what it wrote. The answers of a write and of a read are read off the
protocol's states with one induction over the 128 data bytes each.
-/

set_option autoImplicit false

namespace PsxRecomp.Sio

open List BitVec

variable {P : Type} (pad : Pad P)

/-! ## 1. The shifter -/

variable {r n : Int} {u : State P}

section
variable {s t : State P} {tx : Byte}

theorem SameLine.refl (s : State P) : SameLine s s := .of_eq ⟨rfl, rfl, rfl, rfl⟩ rfl

theorem SameLine.trans (h : SameLine s t) (h' : SameLine t u) : SameLine s u :=
  ⟨h.toSameWire.trans h'.toSameWire, h'.active.trans h.active, h'.byte.trans h.byte,
    h'.buffered.trans h.buffered⟩

theorem sameLine_elapse (dt : Int) (s : State P) : SameLine s (elapse dt s) :=
  ⟨⟨rfl, rfl, rfl, rfl⟩, rfl, rfl, rfl⟩

theorem sameLine_takeAck (dt : Int) (s : State P) : SameLine s (takeAck (elapse dt s)) :=
  ⟨⟨rfl, rfl, rfl, rfl⟩, rfl, rfl, rfl⟩

theorem fireAck_shifter (s : State P) :
    (sioFireAckIrq s).shifter = s.shifter ∧ (sioFireAckIrq s).ack.pending = s.ack.pending ∧
      (s.shifter.active = true → (sioFireAckIrq s).timingActive = s.timingActive) := by
  unfold sioFireAckIrq State.settle
  extract_lets en a s₁
  split_ifs with hen hidle
  · refine ⟨rfl, rfl, fun hact => ?_⟩
    have hquiet : s.shifter.active = false := by
      simp only [Bool.and_eq_true, Bool.not_eq_true'] at hidle
      exact hidle.1.1
    rw [hact] at hquiet
    cases hquiet
  · exact ⟨rfl, rfl, fun _ => rfl⟩
  · exact ⟨rfl, rfl, fun _ => rfl⟩

/-- The byte `tx` is shifting, nothing is buffered behind it, and `r` cycles are left. -/
structure Shifting (tx : Byte) (r : Int) (s : State P) : Prop where
  active : s.shifter.active = true
  byte : s.shifter.byte = tx
  remaining : s.shifter.remaining = r
  buffered : s.shifter.buffered = false
  timing : s.timingActive = true
  nonneg : 0 ≤ r

structure Quiet (s : State P) : Prop where
  active : s.shifter.active = false
  buffered : s.shifter.buffered = false

theorem Quiet.of_same (h : Quiet s) (hs : SameLine s t) : Quiet t :=
  ⟨hs.active.trans h.active, hs.buffered.trans h.buffered⟩

theorem Quiet.pace (h : Quiet s) (k : Nat) (n : Int) : SameLine s (pace pad k n s) := by
  induction k generalizing s n with
  | zero => exact .refl s
  | succ k ih =>
    unfold Sio.pace
    split_ifs with hdone
    · exact .refl s
    · extract_lets dt
      split
      next hev =>
        -- the shifter is idle, so no byte can be out
        simp [nextEvent, h.active] at hev
        split_ifs at hev
      next hev =>
        have ht : SameLine s (sioFireAckIrq (takeAck (elapse dt s))) :=
          (sameLine_takeAck dt s).trans (sameLine_fireAck _)
        exact ht.trans (ih (h.of_same ht) _)
      next hev => exact sameLine_elapse dt s

/-- The byte `tx` has been delivered: the device has answered, and nothing shifts any more. -/
structure Sent (tx : Byte) (s t : State P) : Prop where
  bus : t.bus = (sioProcessByte pad s.ctrl tx s.bus).1
  rxData : t.rxData = (sioProcessByte pad s.ctrl tx s.bus).2.rx
  ctrl : t.ctrl = s.ctrl
  quiet : Quiet t

theorem SameLine.sent (h : SameLine s t) (h' : Sent pad tx t u) : Sent pad tx s u :=
  ⟨by rw [h'.bus, h.bus, h.ctrl], by rw [h'.rxData, h.bus, h.ctrl], h'.ctrl.trans h.ctrl, h'.quiet⟩

variable {pad} in
theorem Sent.same (h : Sent pad tx s t) (h' : SameLine t u) : Sent pad tx s u :=
  ⟨h'.bus.trans h.bus, h'.rxData.trans h.rxData, h'.ctrl.trans h.ctrl, h.quiet.of_same h'⟩

theorem sent_shiftComplete (hbyte : s.shifter.byte = tx) (hbuf : s.shifter.buffered = false) :
    Sent pad tx s (sioHandleShiftComplete pad s) := by
  subst hbyte
  obtain ⟨hsame, hact, hnone⟩ := shiftComplete_same pad s
  exact ⟨hsame.bus, hsame.rxData, hsame.ctrl, hact.trans hbuf, hnone⟩

theorem Shifting.nextEvent (h : Shifting tx r s) (hn : 0 < n) : (nextEvent s n = (r, .shift) ∧ r < n) ∨
    (∃ dt, nextEvent s n = (dt, .ack) ∧ s.ack.pending = true ∧ 0 ≤ dt ∧ dt < r ∧ dt < n) ∨
    (nextEvent s n = (n, .nothing) ∧ n ≤ r) := by
  have hr := h.nonneg
  simp only [Sio.nextEvent, h.active, h.remaining, true_and]
  by_cases hzero : r ≤ 0
  · exact .inl ⟨by rw [if_pos hzero]; congr 1; omega, by omega⟩
  rw [if_neg hzero]
  by_cases hack : s.ack.pending = true
  · by_cases hdue : s.ack.remaining ≤ 0
    · exact .inr (.inl ⟨0, by rw [if_pos ⟨hack, hdue⟩], hack, by omega, by omega, hn⟩)
    rw [if_neg fun hc => hdue hc.2]
    split_ifs with hshift hfirst hfirst
    · have hlt : s.ack.remaining < r := hfirst.2.2
      exact .inr (.inl ⟨_, rfl, hack, by omega, hlt, by omega⟩)
    · exact .inl ⟨rfl, hshift.2⟩
    · have hlt : s.ack.remaining < n := hfirst.2.2
      exact .inr (.inl ⟨_, rfl, hack, by omega, by omega, hlt⟩)
    · exact .inr (.inr ⟨rfl, by omega⟩)
  · simp only [hack, Bool.false_eq_true, false_and, if_false]
    split_ifs with hshift
    · exact .inl ⟨rfl, hshift.2⟩
    · exact .inr (.inr ⟨rfl, by omega⟩)

theorem Shifting.fireAck {dt : Int} (h : Shifting tx r s) (hdt : dt ≤ r) :
    Shifting tx (r - dt) (sioFireAckIrq (takeAck (elapse dt s))) ∧
      (sioFireAckIrq (takeAck (elapse dt s))).ack.pending = false ∧
      SameLine s (sioFireAckIrq (takeAck (elapse dt s))) := by
  obtain ⟨hsh, hpend, htime⟩ := fireAck_shifter (takeAck (elapse dt s))
  have hsame := (sameLine_takeAck dt s).trans (sameLine_fireAck (takeAck (elapse dt s)))
  refine ⟨⟨hsame.active.trans h.active, hsame.byte.trans h.byte, ?_,
    hsame.buffered.trans h.buffered, (htime h.active).trans h.timing, by omega⟩, hpend, hsame⟩
  rw [hsh]
  simp [takeAck, elapse, h.active, h.remaining]

/-- What a stretch of `n` cycles does to a byte that has `r` to go -/
structure Paced (tx : Byte) (r n : Int) (s t : State P) : Prop where
  before : n ≤ r → Shifting tx (r - n) t ∧ SameLine s t
  after : r < n → Sent pad tx s t

theorem paced_done (h : Shifting tx r s) : Paced pad tx r 0 s s :=
  ⟨fun _ => ⟨by rwa [sub_zero], .refl s⟩, fun hlt => absurd h.nonneg (by omega)⟩

theorem Shifting.pace_step (h : Shifting tx r s) (hn : 0 < n) (k : Nat)
    (hev : (Sio.nextEvent s n = (r, .shift) ∧ r < n) ∨
      (Sio.nextEvent s n = (n, .nothing) ∧ n ≤ r)) :
    Paced pad tx r n s (Sio.pace pad (k + 1) n s) := by
  rw [Sio.pace, if_neg (by omega)]
  rcases hev with ⟨heq, hlt⟩ | ⟨heq, hle⟩
  · simp only [heq]
    have hsent : Sent pad tx s (sioHandleShiftComplete pad (elapse r s)) :=
      (sameLine_elapse r s).sent pad (sent_shiftComplete pad h.byte h.buffered)
    exact ⟨fun hle => absurd hlt (by omega), fun _ => hsent.same (hsent.quiet.pace pad k _)⟩
  · simp only [heq]
    refine ⟨fun _ => ⟨⟨h.active, h.byte, ?_, h.buffered, h.timing, by omega⟩,
      sameLine_elapse n s⟩, fun hlt => absurd hlt (by omega)⟩
    simp [elapse, h.active, h.remaining]

theorem Shifting.pace (h : Shifting tx r s) (hn : 0 ≤ n) (k : Nat) :
    Paced pad tx r n s (Sio.pace pad (k + 2) n s) := by
  rcases hn.eq_or_lt with rfl | hpos
  · rw [Sio.pace, if_pos le_rfl]
    exact paced_done pad h
  rcases h.nextEvent hpos with hshift | ⟨dt, heq, -, hdt, hdr, hdn⟩ | hnone
  · exact h.pace_step pad hpos (k + 1) (.inl hshift)
  · obtain ⟨hsh, hpend, hsame⟩ := h.fireAck hdr.le
    have hrest : Paced pad tx (r - dt) (n - dt) (sioFireAckIrq (takeAck (elapse dt s)))
        (Sio.pace pad (k + 1) (n - dt) (sioFireAckIrq (takeAck (elapse dt s)))) := by
      refine hsh.pace_step pad (by omega) k ?_
      rcases hsh.nextEvent (by omega : 0 < n - dt) with h' | ⟨_, _, hack, _⟩ | h'
      · exact .inl h'
      · rw [hpend] at hack
        cases hack
      · exact .inr h'
    rw [Sio.pace, if_neg (by omega)]
    simp only [heq]
    refine ⟨fun hle => ?_, fun hlt => hsame.sent pad (hrest.after (by omega))⟩
    obtain ⟨hsh', hsame'⟩ := hrest.before (by omega)
    exact ⟨by rwa [show r - dt - (n - dt) = r - n by omega] at hsh', hsame.trans hsame'⟩
  · exact h.pace_step pad hpos (k + 1) (.inr hnone)

theorem Quiet.advance (h : Quiet s) (w : Word) : SameLine s (sioAdvance pad w s) := by
  unfold sioAdvance
  split_ifs
  · exact .refl s
  · exact h.pace pad _ _
  · exact .refl s

theorem Shifting.advance (h : Shifting tx r s) {w : Word} (hw : 0 ≤ w.toInt) :
    Paced pad tx r w.toInt s (sioAdvance pad w s) := by
  unfold sioAdvance
  split_ifs with hzero htime
  · subst hzero
    exact paced_done pad h
  · exact h.pace pad hw 6
  · exact absurd h.timing htime

def waitFor (wait : List Word) (s : State P) : State P := wait.foldl (fun s w => sioAdvance pad w s) s

theorem Quiet.waitFor (h : Quiet s) (wait : List Word) : SameLine s (waitFor pad wait s) := by
  induction wait generalizing s with
  | nil => exact .refl s
  | cons w rest ih =>
    have hw := h.advance pad w
    exact hw.trans (ih (h.of_same hw))

/-- A byte in the shifter is delivered once its cycles have passed, in however many calls of the clock. -/
theorem Shifting.waitFor (h : Shifting tx r s) {wait : List Word}
    (hnn : ∀ w ∈ wait, 0 ≤ w.toInt) (hsum : r < (wait.map BitVec.toInt).sum) :
    Sent pad tx s (waitFor pad wait s) := by
  induction wait generalizing s r with
  | nil => exact absurd h.nonneg (by simpa using hsum)
  | cons w rest ih =>
    have hpaced := h.advance pad (hnn w mem_cons_self)
    have hrest : ∀ v ∈ rest, 0 ≤ v.toInt := fun v hv => hnn v (mem_cons_of_mem w hv)
    rw [map_cons, sum_cons] at hsum
    rcases le_or_gt w.toInt r with hle | hlt
    · obtain ⟨hsh, hsame⟩ := hpaced.before hle
      exact hsame.sent pad (ih hsh hrest (by omega))
    · have hsent := hpaced.after hlt
      exact hsent.same (hsent.quiet.waitFor pad rest)

end

/-! ## 2. One exchange -/

/-- A byte the host exchanges: the control word it selects with, the byte, and the cycles it waits -/
structure Xchg where
  ctrl : BitVec 16
  tx : Byte
  wait : List Word

/-- The exchange as a driver makes it: select, send, wait, read the answer, acknowledge -/
def xchg (x : Xchg) (s : State P) : State P × Byte :=
  let s₁ := sioWrite pad 0x1F80104A#32 (x.ctrl.setWidth 32) s
  let s₂ := sioWrite pad 0x1F801040#32 (x.tx.setWidth 32) s₁
  let s₃ := waitFor pad x.wait s₂
  let r := sioRead 0x1F801040#32 s₃
  (sioWrite pad 0x1F80104A#32 ((x.ctrl ||| 0x10#16).setWidth 32) r.2, r.1.setWidth 8)

def drive : List Xchg → State P → State P × List Byte
  | [], s => (s, [])
  | x :: xs, s => ((drive xs (xchg pad x s).1).1, (xchg pad x s).2 :: (drive xs (xchg pad x s).1).2)

/-- The control word transmits and selects the slot, and does not reset. -/
structure Selects (ctrl : BitVec 16) (slot : Slot) : Prop where
  txEn : ctrl.getLsbD 0 = true
  select : ctrl.getLsbD 1 = true
  noReset : ctrl.getLsbD 6 = false
  slot : ctrlSlot ctrl = slot

/-- More cycles than the shifter needs for a byte, in any number of calls -/
structure Enough (wait : List Word) : Prop where
  nonneg : ∀ w ∈ wait, 0 ≤ w.toInt
  cycles : baudCycles < (wait.map BitVec.toInt).sum

/-- The exchanges send these bytes to this slot, with enough cycles for each. -/
structure Drives (slot : Slot) (xs : List Xchg) (bytes : List Byte) : Prop where
  bytes : xs.map Xchg.tx = bytes
  selects : ∀ x ∈ xs, Selects x.ctrl slot
  enough : ∀ x ∈ xs, Enough x.wait

variable {xs : List Xchg} {tx : Byte}

theorem Drives.cons {slot : Slot} {txs : List Byte}
    (h : Drives slot xs (tx :: txs)) : ∃ x xs', xs = x :: xs' ∧ x.tx = tx ∧ Selects x.ctrl slot ∧
      Enough x.wait ∧ Drives slot xs' txs := by
  obtain ⟨x, xs, rfl, htx, htxs⟩ := map_eq_cons_iff.mp h.bytes
  obtain ⟨hsel, hsels⟩ := forall_mem_cons.mp h.selects
  obtain ⟨hwait, hwaits⟩ := forall_mem_cons.mp h.enough
  exact ⟨x, xs, rfl, htx, hsel, hwait, htxs, hsels, hwaits⟩

section
variable {s : State P} {slot : Slot} {x : Xchg}

theorem writeCtrl_selects {c : BitVec 16} (htx : c.getLsbD 0 = true) (hsel : c.getLsbD 1 = true)
    (hres : c.getLsbD 6 = false) (s : State P) :
    (writeCtrl pad c s).bus = s.bus ∧ (writeCtrl pad c s).rxData = s.rxData ∧
      (writeCtrl pad c s).ctrl = c ∧ (writeCtrl pad c s).shifter = s.shifter ∧
      (s.ctrl.getLsbD 1 = false → (writeCtrl pad c s).owner = .none) := by
  simp only [writeCtrl, htx, hsel, hres, Bool.and_true, Bool.not_true, Bool.and_false,
    Bool.false_eq_true, if_false]
  split_ifs with hnew
  iterate 2 exact ⟨rfl, rfl, rfl, rfl, fun _ => rfl⟩
  all_goals exact ⟨rfl, rfl, rfl, rfl, fun h => absurd h (by simpa using hnew)⟩

/-- The byte goes to the shifter: the card owns the bus, or nobody does and it is not for the pad. -/
def ForShifter (tx : Byte) (s : State P) : Prop :=
  s.bus.device = .memcard ∨ (s.bus.device = .none ∧ s.owner = .none ∧ tx ≠ 0x01#8)

theorem writeTx_shifts (hq : Quiet s) (htx : s.ctrl.getLsbD 0 = true) (hfor : ForShifter tx s) :
    Shifting tx baudCycles (writeTx pad tx s) ∧ (writeTx pad tx s).bus = s.bus ∧
      (writeTx pad tx s).ctrl = s.ctrl := by
  have hslow : padFastPath tx s = false := by
    rcases hfor with hdev | ⟨hdev, hown, hne⟩
    · simp [padFastPath, hdev]
    · simp [padFastPath, hdev, hown, hne]
  unfold writeTx
  rw [htx, hslow]
  unfold shiftTx
  extract_lets owner s₁
  have hact : s₁.shifter.active = false := hq.active
  simp only [hact, Bool.not_true, Bool.not_false, Bool.false_eq_true, if_false, if_true]
  exact ⟨⟨rfl, rfl, rfl, hq.buffered, rfl, by decide⟩, rfl, rfl⟩

/-- An exchange delivers the byte, and only the acknowledge line moves besides. -/
theorem xchg_sent (hq : Quiet s) (hx : Selects x.ctrl slot) (hw : Enough x.wait)
    (hfor : s.bus.device = .memcard ∨
      (s.bus.device = .none ∧ s.ctrl.getLsbD 1 = false ∧ x.tx ≠ 0x01#8)) :
    (xchg pad x s).1.bus = (sioProcessByte pad x.ctrl x.tx s.bus).1 ∧
      (xchg pad x s).2 = (sioProcessByte pad x.ctrl x.tx s.bus).2.rx ∧
      Quiet (xchg pad x s).1 ∧ (xchg pad x s).1.ctrl.getLsbD 1 = true := by
  obtain ⟨hbus, hrx, hctrl, hsh, hown⟩ :=
    writeCtrl_selects pad hx.txEn hx.select hx.noReset s
  have hq₁ : Quiet (writeCtrl pad x.ctrl s) := ⟨by rw [hsh, hq.active], by rw [hsh, hq.buffered]⟩
  have hfor₁ : ForShifter x.tx (writeCtrl pad x.ctrl s) := by
    rcases hfor with hdev | ⟨hdev, hsel, hne⟩
    · exact .inl (by rw [hbus, hdev])
    · exact .inr ⟨by rw [hbus, hdev], hown hsel, hne⟩
  obtain ⟨hshift, hbus₂, hctrl₂⟩ := writeTx_shifts pad hq₁ (by rw [hctrl, hx.txEn]) hfor₁
  have hsent := hshift.waitFor pad hw.nonneg hw.cycles
  set t := waitFor pad x.wait (writeTx pad x.tx (writeCtrl pad x.ctrl s)) with ht
  have hack : (x.ctrl ||| 0x10#16).getLsbD 0 = true ∧ (x.ctrl ||| 0x10#16).getLsbD 1 = true ∧
      (x.ctrl ||| 0x10#16).getLsbD 6 = false := by
    simp only [getLsbD_or, hx.txEn, hx.select, hx.noReset]
    decide
  obtain ⟨hbus₄, -, hctrl₄, hsh₄, -⟩ := writeCtrl_selects pad hack.1 hack.2.1 hack.2.2
    ({ t with stat := t.stat &&& ~~~statRxRdy })
  have heq : xchg pad x s = (writeCtrl pad (x.ctrl ||| 0x10#16)
      { t with stat := t.stat &&& ~~~statRxRdy }, t.rxData) := by
    simp [xchg, sioWrite, sioRead, ht]
  rw [heq]
  refine ⟨?_, ?_, ⟨?_, ?_⟩, ?_⟩
  · rw [hbus₄, hsent.bus, hctrl₂, hctrl, hbus₂, hbus]
  · rw [hsent.rxData, hctrl₂, hctrl, hbus₂, hbus]
  · rw [hsh₄]
    exact hsent.quiet.active
  · rw [hsh₄]
    exact hsent.quiet.buffered
  · rw [hctrl₄]
    exact hack.2.1

end

/-! ## 3. The card's conversation -/

/-- The card answers `txs` with `rxs`, in the middle of a protocol all the way. -/
inductive Talks : Bus P → List Byte → List Byte → Bus P → Prop
  | nil (b : Bus P) : Talks b [] [] b
  | cons {b b' : Bus P} {tx : Byte} {txs rxs : List Byte} :
      b.mc.state ≠ .idle → Talks (mcProcessByte tx b).1 txs rxs b' →
      Talks b (tx :: txs) ((mcProcessByte tx b).2.rx :: rxs) b'

section
variable {b b' b'' : Bus P} {txs rxs txs' rxs' : List Byte}

theorem Talks.append (h : Talks b txs rxs b') (h' : Talks b' txs' rxs' b'') :
    Talks b (txs ++ txs') (rxs ++ rxs') b'' := by
  induction h with
  | nil => exact h'
  | cons hst _ ih => exact .cons hst (ih h')

theorem Talks.step {rx : Byte} (hst : b.mc.state ≠ .idle) (hbus : (mcProcessByte tx b).1 = b')
    (hrx : (mcProcessByte tx b).2.rx = rx) (h : Talks b' txs rxs b'') :
    Talks b (tx :: txs) (rx :: rxs) b'' := by
  subst hbus hrx
  exact .cons hst h

/-- The selected card is in the middle of something, and the port is quiet. -/
structure Held (s : State P) : Prop where
  quiet : Quiet s
  select : s.ctrl.getLsbD 1 = true
  device : s.bus.device = .memcard

/-- As long as the card is in the middle of a protocol, an exchange is the card's own answer. -/
theorem drive_talks {s : State P} {slot : Slot} (h : Talks b txs rxs b')
    (hs : Held s) (hb : s.bus = b) (hx : Drives slot xs txs) :
    Held (drive pad xs s).1 ∧ (drive pad xs s).1.bus = b' ∧ (drive pad xs s).2 = rxs := by
  induction h generalizing s xs with
  | nil b =>
    obtain rfl : xs = [] := map_eq_nil_iff.mp hx.bytes
    exact ⟨hs, hb, rfl⟩
  | @cons b b' tx txs rxs hst _ ih =>
    obtain ⟨x, xs, rfl, htx, hsel, hwait, hxs⟩ := hx.cons
    obtain ⟨hbus, hrx, hq, hsel'⟩ := xchg_sent pad hs.quiet hsel hwait (.inl hs.device)
    have hmc : sioProcessByte pad x.ctrl x.tx s.bus = mcProcessByte tx b := by
      rw [sioProcessByte, hs.device, hb, htx]
      exact if_neg hst
    rw [hmc] at hbus hrx
    have hdev : (xchg pad x s).1.bus.device = .memcard := by
      rw [hbus, (mcProcessByte_frame tx b).1, ← hb, hs.device]
    obtain ⟨hheld, hbus', hrxs⟩ := ih ⟨hq, hsel', hdev⟩ hbus hxs
    exact ⟨hheld, hbus', by rw [drive, hrx, hrxs]⟩

theorem talks_writeData (ds : List Byte) (hst : b.mc.state = .writeData) (hne : ds ≠ [])
    (hlen : b.mc.dataIdx + ds.length = 128) :
    ∃ d : Sector, d.toList = b.mc.data.toList.take b.mc.dataIdx ++ ds ∧
      Talks b ds (List.replicate ds.length 0x00#8)
        { b with mc := { b.mc with state := .writeChk, dataIdx := 128, data := d } } := by
  induction ds generalizing b with
  | nil => exact absurd rfl hne
  | cons tx rest ih =>
    rw [length_cons] at hlen
    have hidx : b.mc.dataIdx < 128 := by omega
    have htake := take_setIfInBounds b.mc.data hidx tx
    rcases rest.eq_nil_or_concat with rfl | hrest
    · -- the last byte: the buffer is full
      have hfull : b.mc.dataIdx + 1 = 128 := by simpa using hlen
      refine ⟨b.mc.data.setIfInBounds b.mc.dataIdx tx, ?_, ?_⟩
      · rw [← htake, take_of_length_le (by simp [hfull])]
      · refine .step (by simp [hst]) ?_ ?_ (.nil _)
        · simp [mcProcessByte, hst, hfull]
        · simp [mcProcessByte, hst]
    · have hne' : rest ≠ [] := by
        obtain ⟨l, a, rfl⟩ := hrest
        simp
      have hpos := length_pos_iff.mpr hne'
      have hmore : ¬ 128 ≤ b.mc.dataIdx + 1 := by omega
      obtain ⟨d, hd, htalk⟩ := ih (b := (mcProcessByte tx b).1)
        (by simp only [mcProcessByte, hst, if_neg hmore]) hne'
        (by simp only [mcProcessByte, hst]; omega)
      simp only [mcProcessByte, hst, htake, if_neg hmore] at hd htalk
      refine ⟨d, by rw [hd]; simp, ?_⟩
      refine .step (by simp [hst]) ?_ ?_ htalk
      · simp only [mcProcessByte, hst, if_neg hmore]
      · simp [mcProcessByte, hst]

theorem talks_readData {n : Nat} (hst : b.mc.state = .readData) (hlen : b.mc.dataIdx + (n + 1) = 128) :
    Talks b (List.replicate (n + 1) 0x00#8) (b.mc.data.toList.drop b.mc.dataIdx)
      { b with mc := { b.mc with state := .readChk, dataIdx := 128 } } := by
  have hidx : b.mc.dataIdx < b.mc.data.toList.length := by simp; omega
  have hread : (b.mc.data[b.mc.dataIdx]?).getD 0#8 = b.mc.data.toList[b.mc.dataIdx] := by
    rw [Vector.getElem?_eq_getElem (by omega)]
    simp
  rw [drop_eq_getElem_cons hidx, List.replicate_succ]
  induction n generalizing b with
  | zero =>
    have hfull : b.mc.dataIdx + 1 = 128 := by omega
    rw [drop_eq_nil_of_le (by simp [hfull])]
    refine .step (by simp [hst]) ?_ ?_ (.nil _)
    · simp [mcProcessByte, hst, hfull]
    · simp [mcProcessByte, hst, hread]
  | succ n ih =>
    have hmore : ¬ 128 ≤ b.mc.dataIdx + 1 := by omega
    have hidx' : b.mc.dataIdx + 1 < b.mc.data.toList.length := by simp; omega
    have hrest : Talks { b with mc := { b.mc with dataIdx := b.mc.dataIdx + 1 } }
        (replicate (n + 1) 0x00#8) (b.mc.data.toList.drop (b.mc.dataIdx + 1))
        { b with mc := { b.mc with state := .readChk, dataIdx := 128 } } := by
      rw [drop_eq_getElem_cons hidx', List.replicate_succ]
      refine ih (b := { b with mc := { b.mc with dataIdx := b.mc.dataIdx + 1 } }) hst
        (by simp only; omega) hidx' ?_
      simp only
      rw [Vector.getElem?_eq_getElem (by omega)]
      simp
    refine .step (by simp [hst]) ?_ ?_ hrest
    · simp only [mcProcessByte, hst, if_neg hmore]
    · simp [mcProcessByte, hst, hread]

/-! ## 4. Transactions -/

/-- `(uint8_t)(sector >> 8)` -/
def msbOf (sector : BitVec 16) : Byte := (sector >>> 8).setWidth 8

/-- `(uint8_t)(sector & 0xFF)` -/
def lsbOf (sector : BitVec 16) : Byte := sector.setWidth 8

theorem sectorOf_bytes (sector : BitVec 16) : sectorOf (msbOf sector) (lsbOf sector) = sector := by
  apply eq_of_getLsbD_eq
  intro i hi
  simp only [sectorOf, msbOf, lsbOf, getLsbD_or, getLsbD_shiftLeft,
    getLsbD_setWidth, getLsbD_ushiftRight]
  by_cases h8 : i < 8
  · simp [h8, hi]
  · have hsub : i - 8 < 8 := by omega
    have hadd : 8 + (i - 8) = i := by omega
    simp [h8, hi, hsub, hadd, show i - 8 < 16 by omega]

theorem talks_header (cmd msb lsb : Byte) (hst : b.mc.state = .cmd)
    (hcmd : cmd = 0x52#8 ∨ cmd = 0x57#8) :
    Talks b [cmd, 0x00#8, 0x00#8, msb, lsb] [b.mc.flag, 0x5A#8, 0x5D#8, 0x00#8, 0x00#8]
      (mcAddrLsb lsb { b with mc := { b.mc with
        cmd := cmd, flag := 0x00#8, sectorMsb := msb, state := .addrLsb } }) := by
  obtain ⟨dev, sel, ⟨st, c, sec, m, l, data, idx, chk, flag⟩, slot, slots, cards, p⟩ := b
  subst hst
  rcases hcmd with rfl | rfl <;>
    exact .step nofun rfl rfl <| .step nofun rfl rfl <| .step nofun rfl rfl <|
      .step nofun rfl rfl <| .step nofun rfl rfl <| .nil _

theorem talks_writeEnd (hst : b.mc.state = .writeChk) (hsec : b.mc.sector.toNat < 1024) :
    Talks b [mcXor b.mc.sectorMsb b.mc.sectorLsb b.mc.data, 0x00#8, 0x00#8, 0x00#8]
      [0x00#8, 0x5C#8, 0x5D#8, 0x47#8]
      { b with
        cards := Function.update b.cards b.mcSlot
          (memcardWriteSector (b.cards b.mcSlot) b.mc.sector.toNat b.mc.data)
        mc := { b.mc with state := .idle, checksum := 0x47#8, flag := 0x00#8 } } := by
  have hwrite : (mcProcessByte (mcXor b.mc.sectorMsb b.mc.sectorLsb b.mc.data) b).1 = { b with
      cards := Function.update b.cards b.mcSlot
        (memcardWriteSector (b.cards b.mcSlot) b.mc.sector.toNat b.mc.data)
      mc := { b.mc with state := .writeAck1, checksum := 0x47#8 } } := by
    simp [mcProcessByte, hst, mcWriteChk, true_and, if_pos hsec]
  exact .step (by simp [hst]) hwrite (by simp only [mcProcessByte, hst]) <|
    .step McState.noConfusion rfl rfl <| .step McState.noConfusion rfl rfl <|
      .step McState.noConfusion rfl rfl <| .nil _

theorem talks_readAck (hst : b.mc.state = .readAck1) :
    Talks b [0x00#8, 0x00#8, 0x00#8, 0x00#8] [0x5C#8, 0x5D#8, b.mc.sectorMsb, b.mc.sectorLsb]
      { b with mc := { b.mc with state := .readData, dataIdx := 0 } } := by
  obtain ⟨dev, sel, ⟨st, c, sec, m, l, data, idx, chk, flag⟩, slot, slots, cards, p⟩ := b
  subst hst
  exact .step nofun rfl rfl <| .step nofun rfl rfl <| .step nofun rfl rfl <|
    .step nofun rfl rfl <| .nil _

theorem talks_readEnd (hst : b.mc.state = .readChk) (hsec : b.mc.sector.toNat < 1024) :
    Talks b [0x00#8, 0x00#8] [b.mc.checksum, 0x47#8]
      { b with mc := { b.mc with state := .idle } } := by
  obtain ⟨dev, sel, ⟨st, c, sec, m, l, data, idx, chk, flag⟩, slot, slots, cards, p⟩ := b
  subst hst
  exact .step nofun rfl rfl <| .step nofun rfl (if_pos hsec) <| .nil _

def writeBytes (sector : BitVec 16) (d : Sector) : List Byte :=
  [0x57#8, 0x00#8, 0x00#8, msbOf sector, lsbOf sector] ++ d.toList ++
    [mcXor (msbOf sector) (lsbOf sector) d, 0x00#8, 0x00#8, 0x00#8]

def readBytes (sector : BitVec 16) : List Byte :=
  [0x52#8, 0x00#8, 0x00#8, msbOf sector, lsbOf sector] ++ [0x00#8, 0x00#8, 0x00#8, 0x00#8] ++
    List.replicate 128 0x00#8 ++ [0x00#8, 0x00#8]

def Card.put (c : Card) (sector : Fin 1024) (d : Sector) : Card :=
  { c with data := Function.update c.data sector d }

theorem mcAddrLsb_read (lsb : Byte) (hcmd : b.mc.cmd = 0x52#8)
    (hpres : (b.cards b.mcSlot).present = true)
    (hsec : (sectorOf b.mc.sectorMsb lsb).toNat < 1024) :
    mcAddrLsb lsb b = { b with mc := { b.mc with
      sectorLsb := lsb, sector := sectorOf b.mc.sectorMsb lsb, dataIdx := 0
      data := (b.cards b.mcSlot).data ⟨_, hsec⟩
      checksum := mcXor b.mc.sectorMsb lsb ((b.cards b.mcSlot).data ⟨_, hsec⟩)
      state := .readAck1 } } := by
  rw [mcAddrLsb, if_pos hcmd]
  simp [memcardReadSector, dif_pos hsec, if_pos hsec, if_pos hpres]

theorem talks_write {sector : BitVec 16} (hst : b.mc.state = .cmd)
    (hpres : (b.cards b.mcSlot).present = true) (hsec : sector.toNat < 1024) (d : Sector) :
    ∃ b', Talks b (writeBytes sector d)
        ([b.mc.flag, 0x5A#8, 0x5D#8, 0x00#8, 0x00#8] ++ List.replicate 128 0x00#8 ++
          [0x00#8, 0x5C#8, 0x5D#8, 0x47#8]) b' ∧
      b'.mc.flag = 0x00#8 ∧ b'.mcSlot = b.mcSlot ∧
      b'.cards = Function.update b.cards b.mcSlot
        ((b.cards b.mcSlot).put ⟨sector.toNat, hsec⟩ d) := by
  have hhead := talks_header 0x57#8 (msbOf sector) (lsbOf sector) hst (.inr rfl)
  rw [mcAddrLsb, if_neg (by simp)] at hhead
  simp only [sectorOf_bytes] at hhead
  obtain ⟨d', hd', hdata⟩ := talks_writeData (b := { b with mc := { b.mc with
      cmd := 0x57#8, flag := 0x00#8, sectorMsb := msbOf sector, sectorLsb := lsbOf sector
      sector := sector, dataIdx := 0, state := .writeData } }) d.toList rfl
    (ne_nil_of_length_pos (by simp)) (by simp)
  obtain rfl : d' = d := Vector.toList_inj.mp (by simpa using hd')
  rw [Vector.length_toList] at hdata
  refine ⟨_, (hhead.append hdata).append (talks_writeEnd rfl hsec), rfl, rfl, ?_⟩
  simp [memcardWriteSector, dif_pos hsec, if_pos hpres, Card.put]

theorem talks_read {sector : BitVec 16} (hst : b.mc.state = .cmd)
    (hpres : (b.cards b.mcSlot).present = true) (hsec : sector.toNat < 1024) :
    ∃ b', Talks b (readBytes sector)
        ([b.mc.flag, 0x5A#8, 0x5D#8, 0x00#8, 0x00#8] ++
          [0x5C#8, 0x5D#8, msbOf sector, lsbOf sector] ++
          ((b.cards b.mcSlot).data ⟨sector.toNat, hsec⟩).toList ++
          [mcXor (msbOf sector) (lsbOf sector) ((b.cards b.mcSlot).data ⟨sector.toNat, hsec⟩),
            0x47#8]) b' ∧
      b'.cards = b.cards := by
  have hhead := talks_header 0x52#8 (msbOf sector) (lsbOf sector) hst (.inl rfl)
  have hread := mcAddrLsb_read (b := { b with mc := { b.mc with
      cmd := 0x52#8, flag := 0x00#8, sectorMsb := msbOf sector, state := .addrLsb } })
    (lsbOf sector) rfl hpres (by simpa only [sectorOf_bytes] using hsec)
  rw [hread] at hhead
  simp only [sectorOf_bytes] at hhead
  generalize (b.cards b.mcSlot).data ⟨sector.toNat, hsec⟩ = d at hhead ⊢
  exact ⟨_, ((hhead.append (talks_readAck rfl)).append (talks_readData (n := 127) rfl rfl)).append
    (talks_readEnd rfl hsec), rfl⟩

end

/-! ## 5. The round trip -/

section
variable {s : State P} {slot : Slot}

/-- Deselected, with nothing in the shifter: as after `sio_init`, a deselect or a reset -/
structure Idle (s : State P) : Prop where
  quiet : Quiet s
  select : s.ctrl.getLsbD 1 = false
  device : s.bus.device = .none
  mc : s.bus.mc.state = .idle
  slots : ∀ i, (s.bus.mcSlots i).state = .idle

/-- `sio_init` -/
def init (cards : Slot → Card) (p : P) : State P := { bus := { cards := cards, pad := p } }

theorem idle_init (cards : Slot → Card) (p : P) : Idle (init cards p) :=
  ⟨⟨rfl, rfl⟩, by simp [init], rfl, rfl, fun _ => rfl⟩

def opened (slot : Slot) (b : Bus P) : Bus P :=
  { b with
    selectedSlot := slot, device := .memcard, mcSlot := slot
    mc := { b.mcSlots slot with state := .cmd } }

theorem xchg_open {x : Xchg} (hs : Idle s) (hx : Selects x.ctrl slot) (hw : Enough x.wait)
    (htx : x.tx = 0x81#8) (hpres : (s.bus.cards slot).present = true) :
    Held (xchg pad x s).1 ∧ (xchg pad x s).1.bus = opened slot s.bus ∧
      (xchg pad x s).2 = 0xFF#8 := by
  obtain ⟨hbus, hrx, hq, hsel⟩ := xchg_sent pad hs.quiet hx hw
    (.inr ⟨hs.device, hs.select, by rw [htx]; decide⟩)
  have hopen : sioProcessByte pad x.ctrl x.tx s.bus =
      (opened slot s.bus, ⟨0xFF#8, true, true⟩) := by
    rw [sioProcessByte, hs.device, htx]
    simp [processUnowned, hx.slot, Bus.mcLoadSlot, Bus.goto, mcProcessByte, hpres, opened]
  rw [hopen] at hbus hrx
  exact ⟨⟨hq, hsel, by rw [hbus, opened]⟩, hbus, hrx⟩

theorem drive_transaction {txs rxs : List Byte} {b' : Bus P} (hs : Idle s)
    (hpres : (s.bus.cards slot).present = true) (hx : Drives slot xs (0x81#8 :: txs))
    (htalk : Talks (opened slot s.bus) txs rxs b') :
    Held (drive pad xs s).1 ∧ (drive pad xs s).1.bus = b' ∧
      (drive pad xs s).2 = 0xFF#8 :: rxs := by
  obtain ⟨x, xs, rfl, htx, hsel, hwait, hxs⟩ := hx.cons
  obtain ⟨hheld, hbus, hrx⟩ := xchg_open pad hs hsel hwait htx hpres
  obtain ⟨hheld', hbus', hrxs⟩ := drive_talks pad htalk hheld hbus hxs
  exact ⟨hheld', hbus', by rw [drive, hrx, hrxs]⟩

theorem idle_deselect {off : BitVec 16} (hs : Held s) (hsel : off.getLsbD 1 = false)
    (hres : off.getLsbD 6 = false) :
    Idle (writeCtrl pad off s) ∧ (writeCtrl pad off s).bus.cards = s.bus.cards ∧
      ((writeCtrl pad off s).bus.mcSlots s.bus.mcSlot).flag = s.bus.mc.flag := by
  have hkeep : ∀ t : State P, t.bus = s.bus → t.ctrl = off →
      Idle (deselect pad t) ∧ (deselect pad t).bus.cards = s.bus.cards ∧
        ((deselect pad t).bus.mcSlots s.bus.mcSlot).flag = s.bus.mc.flag := by
    intro t ht hctrl
    refine ⟨⟨⟨rfl, rfl⟩, ?_, rfl, rfl, fun _ => rfl⟩, ?_, ?_⟩
    · exact (congrArg (BitVec.getLsbD · 1) hctrl).trans hsel
    · show t.bus.cards = s.bus.cards
      rw [ht]
    · simp [deselect, ht, hs.device, McSlotState.deselect]
  simp only [writeCtrl, hs.select, hsel, hres, Bool.not_true, Bool.not_false, Bool.and_false,
    Bool.false_eq_true, if_false, Bool.and_true, if_true]
  unfold txOff
  split_ifs <;> exact hkeep _ rfl rfl

theorem Idle.kept (hs : Idle s) : Kept s.bus.cards s.trace.length s :=
  ⟨le_rfl, tied_of_idle hs.slots hs.mc, .inl rfl⟩

/-- From an idle port, for the cards behind it:
* a host that writes a sector of a present card and, after a deselect, reads it gets the protocol's
  bytes, the address, what it wrote, its checksum and 0x47, and nothing else of either card has changed;
* whatever the host and the clock do, the cards are unchanged unless a complete write, with a sector
  of the card and the right checksum, has gone over the wire without a deselect or reset in it. -/
theorem card_round_trip (hs : Idle s) :
    (∀ (slot : Slot) (sector : BitVec 16) (hsec : sector.toNat < 1024) (d : Sector)
      (xs ys : List Xchg) (off : BitVec 16), (s.bus.cards slot).present = true →
      Drives slot xs (0x81#8 :: writeBytes sector d) → off.getLsbD 1 = false →
      off.getLsbD 6 = false → Drives slot ys (0x81#8 :: readBytes sector) →
      let w := drive pad xs s
      let r := drive pad ys (sioWrite pad 0x1F80104A#32 (off.setWidth 32) w.1)
      w.2 = [0xFF#8, (s.bus.mcSlots slot).flag, 0x5A#8, 0x5D#8, 0x00#8, 0x00#8] ++
        List.replicate 128 0x00#8 ++ [0x00#8, 0x5C#8, 0x5D#8, 0x47#8] ∧
      r.2 = [0xFF#8, 0x00#8, 0x5A#8, 0x5D#8, 0x00#8, 0x00#8, 0x5C#8, 0x5D#8, msbOf sector,
        lsbOf sector] ++ d.toList ++ [mcXor (msbOf sector) (lsbOf sector) d, 0x47#8] ∧
      r.1.bus.cards =
        Function.update s.bus.cards slot ((s.bus.cards slot).put ⟨sector.toNat, hsec⟩ d)) ∧
    (∀ ops : List Op,
      (∀ w, w <:+: (run pad s ops).trace.drop s.trace.length → ¬ IsWrite w) →
      (run pad s ops).bus.cards = s.bus.cards) := by
  constructor
  · intro slot sector hsec d xs ys off hpres hxs hsel hres hys w r
    -- the write
    obtain ⟨b₁, htalk₁, hflag, hslot, hcards⟩ :=
      talks_write (b := opened slot s.bus) rfl hpres hsec d
    obtain ⟨hheld, hbus, hrx⟩ := drive_transaction pad hs hpres hxs htalk₁
    -- the deselect
    obtain ⟨hidle, hcards', hflag'⟩ := idle_deselect pad hheld hsel hres
    have hr : r = drive pad ys (writeCtrl pad off (drive pad xs s).1) := by
      simp [r, w, sioWrite]
    rw [hbus, hcards] at hcards'
    rw [hbus, hslot, hflag] at hflag'
    rw [hr]
    generalize writeCtrl pad off (drive pad xs s).1 = s₂ at hidle hcards' hflag' ⊢
    have hcard : s₂.bus.cards slot = (s.bus.cards slot).put ⟨sector.toNat, hsec⟩ d := by
      rw [hcards']
      exact Function.update_self ..
    have hdata : (s₂.bus.cards slot).data ⟨sector.toNat, hsec⟩ = d := by
      rw [hcard]
      exact Function.update_self ..
    -- the read
    have hpres' : (s₂.bus.cards slot).present = true := by
      rw [hcard]
      exact hpres
    obtain ⟨b₂, htalk₂, hcards₂⟩ := talks_read (b := opened slot s₂.bus) rfl hpres' hsec
    obtain ⟨-, hbus₂, hrx₂⟩ := drive_transaction pad hidle hpres' hys htalk₂
    have hf : (opened slot s₂.bus).mc.flag = 0x00#8 := hflag'
    have hd : ((opened slot s₂.bus).cards (opened slot s₂.bus).mcSlot).data
        ⟨sector.toNat, hsec⟩ = d := hdata
    rw [hf, hd] at hrx₂
    exact ⟨hrx, hrx₂, by rw [hbus₂, hcards₂]; exact hcards'⟩
  · intro ops hno
    rcases (hs.kept.run pad ops).cards with hsame | ⟨w, hw, hin⟩
    · exact hsame
    · exact absurd hw (hno w hin)

/-- Two blank cards and no pad: sector 5 of the first is written with sevens and read back. -/
theorem card_round_trip_sevens :
    let pad : Pad Unit := ⟨fun _ _ p => (p, ⟨0xFF#8, false, true⟩), id⟩
    let s : State Unit := init (fun _ => ⟨true, fun _ => Vector.replicate 128 0xFF#8⟩) ()
    let send : List Byte → List Xchg := List.map fun b => ⟨0x1003#16, b, [2000#32]⟩
    let d : Sector := Vector.replicate 128 0x07#8
    let w := drive pad (send (0x81#8 :: writeBytes 5#16 d)) s
    let r := drive pad (send (0x81#8 :: readBytes 5#16))
      (sioWrite pad 0x1F80104A#32 0x1001#32 w.1)
    r.2 = [0xFF#8, 0x00#8, 0x5A#8, 0x5D#8, 0x00#8, 0x00#8, 0x5C#8, 0x5D#8, 0x00#8, 0x05#8] ++
      d.toList ++ [0x05#8, 0x47#8] := by
  intro pad s send d w r
  have hsel : Selects 0x1003#16 0 := ⟨by decide, by decide, by decide, by decide⟩
  have hwait : Enough [2000#32] := ⟨by simp, by decide⟩
  have hdrives (bytes : List Byte) : Drives 0 (send bytes) bytes := by
    refine ⟨?_, fun x hx => ?_, fun x hx => ?_⟩
    · rw [map_map]
      exact map_id bytes
    · obtain ⟨b, -, rfl⟩ := mem_map.mp hx
      exact hsel
    · obtain ⟨b, -, rfl⟩ := mem_map.mp hx
      exact hwait
  have htrip := (card_round_trip pad (idle_init (fun _ => ⟨true, fun _ => Vector.replicate 128 0xFF#8⟩)
    ())).1 0 5#16 (by decide) d _ _ 0x1001#16 rfl (hdrives _) (by decide) (by decide) (hdrives _)
  have hchk : mcXor (msbOf 5#16) (lsbOf 5#16) d = 0x05#8 := by decide +kernel
  have hrx := htrip.2.1
  rw [hchk] at hrx
  exact hrx

end

end PsxRecomp.Sio
