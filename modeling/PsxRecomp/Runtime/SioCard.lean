import Mathlib.Data.List.Infix
import PsxRecomp.Runtime.Sio

/-!
# `Runtime/SioCard.lean` — when the serial port changes a memory card

A card changes only when a complete write has been on the wire: `81 57`, two bytes, the address, 128
data bytes and their checksum, one after the other with no deselect or reset between them, for a sector
the card has. It is an invariant over any run of accesses and clock ticks: `Progress` ties the card's
state to the end of the trace.
-/

set_option autoImplicit false

namespace PsxRecomp.Sio

open List

variable {P : Type} (pad : Pad P)

/-! ## 1. Complete writes on the wire -/

/-- A write of `d` to the sector `msb lsb`: the bytes up to the checksum -/
def writeFrame (x y msb lsb : Byte) (d : Sector) (chk : Byte) : List Byte :=
  [0x81#8, 0x57#8, x, y, msb, lsb] ++ d.toList ++ [chk]

/-- A complete write: a sector of the card, and the checksum of what was sent -/
def IsWrite (w : List Event) : Prop :=
  ∃ (x y msb lsb : Byte) (d : Sector), (sectorOf msb lsb).toNat < 1024 ∧
    w = (writeFrame x y msb lsb d (mcXor msb lsb d)).map .byte

/-- The last bytes on the wire were `bs`. -/
def Ends (tr : List Event) (bs : List Byte) : Prop := bs.map Event.byte <:+ tr

theorem Ends.snoc {tr : List Event} {bs : List Byte} (h : Ends tr bs) (b : Byte) :
    Ends (tr ++ [.byte b]) (bs ++ [b]) := by
  obtain ⟨pre, rfl⟩ := h
  exact ⟨pre, by simp⟩

theorem ends_one (tr : List Event) (b : Byte) : Ends (tr ++ [.byte b]) [b] := ⟨tr, by simp⟩

/-- What the wire has carried when the card is in this state on its way to a write -/
def Progress (m : McSlotState) (tr : List Event) : Prop :=
  match m.state with
  | .cmd => Ends tr [0x81#8]
  | .id1 => Ends tr [0x81#8, m.cmd]
  | .id2 => ∃ x, Ends tr [0x81#8, m.cmd, x]
  | .addrMsb => ∃ x y, Ends tr [0x81#8, m.cmd, x, y]
  | .addrLsb => ∃ x y, Ends tr [0x81#8, m.cmd, x, y, m.sectorMsb]
  | .writeData => m.dataIdx < 128 ∧ m.sector = sectorOf m.sectorMsb m.sectorLsb ∧
      ∃ x y, Ends tr ([0x81#8, 0x57#8, x, y, m.sectorMsb, m.sectorLsb] ++
        m.data.toList.take m.dataIdx)
  | .writeChk => m.sector = sectorOf m.sectorMsb m.sectorLsb ∧
      ∃ x y, Ends tr ([0x81#8, 0x57#8, x, y, m.sectorMsb, m.sectorLsb] ++ m.data.toList)
  | _ => True

/-- The commands that a card goes on with: 0x53 leaves the way to a write after the second id byte. -/
def Commanded (m : McSlotState) : Prop :=
  match m.state with
  | .id1 | .id2 => m.cmd = 0x52#8 ∨ m.cmd = 0x57#8 ∨ m.cmd = 0x53#8
  | .addrMsb | .addrLsb => m.cmd = 0x52#8 ∨ m.cmd = 0x57#8
  | _ => True

theorem progress_idle {m : McSlotState} (h : m.state = .idle) (tr : List Event) :
    Progress m tr ∧ Commanded m := by
  simp [Progress, Commanded, h]

theorem take_setIfInBounds (d : Sector) {i : Nat} (hi : i < 128) (b : Byte) :
    (d.setIfInBounds i b).toList.take (i + 1) = d.toList.take i ++ [b] := by
  have hlen : i < d.toList.length := by simpa using hi
  rw [Vector.toList_setIfInBounds, take_set, take_add_one, List.getElem?_eq_getElem hlen]
  simp [Nat.min_eq_left hi.le]

/-! ## 2. One byte at the card -/

section
variable {b : Bus P} {tr : List Event} {tx : Byte}

theorem mcProcessByte_frame (tx : Byte) (b : Bus P) :
    (mcProcessByte tx b).1.device = b.device ∧ (mcProcessByte tx b).1.mcSlots = b.mcSlots ∧
      (mcProcessByte tx b).1.pad = b.pad := by
  cases hst : b.mc.state
  all_goals
    simp only [mcProcessByte, hst, mcAddrLsb, mcWriteChk]
    try split_ifs
  all_goals simp [Bus.goto]

theorem mcProcessByte_cards (h : Progress b.mc tr) :
    (mcProcessByte tx b).1.cards = b.cards ∨ ∃ w, IsWrite w ∧ w <:+ tr ++ [.byte tx] := by
  cases hst : b.mc.state
  case writeChk =>
    simp only [Progress, hst] at h
    obtain ⟨hsec, x, y, hend⟩ := h
    simp only [mcProcessByte, hst, mcWriteChk]
    split_ifs with hok
    · obtain ⟨rfl, hlt⟩ := hok
      exact .inr ⟨_, ⟨x, y, _, _, b.mc.data, hsec ▸ hlt, rfl⟩, hend.snoc _⟩
    · exact .inl rfl
    · exact .inl rfl
  all_goals
    refine .inl ?_
    simp only [mcProcessByte, hst, mcAddrLsb]
    try split_ifs
  all_goals rfl

/-- One byte at the card keeps it. -/
theorem mcProcessByte_progress (h : Progress b.mc tr) (hc : Commanded b.mc)
    (hopen : b.mc.state = .idle → tx = 0x81#8) :
    Progress (mcProcessByte tx b).1.mc (tr ++ [.byte tx]) ∧
      Commanded (mcProcessByte tx b).1.mc := by
  cases hst : b.mc.state
  case idle =>
    rw [hopen hst]
    simp only [mcProcessByte, hst]
    split_ifs
    · exact ⟨ends_one tr _, trivial⟩
    · exact progress_idle hst _
  case cmd =>
    simp only [Progress, hst] at h
    simp only [mcProcessByte, hst]
    split_ifs with hcmd
    · exact ⟨h.snoc _, hcmd⟩
    · exact ⟨trivial, trivial⟩
  case id1 =>
    simp only [Progress, Commanded, hst] at h hc
    simp only [mcProcessByte, hst, Bus.goto, Progress, Commanded]
    exact ⟨⟨tx, h.snoc tx⟩, hc⟩
  case id2 =>
    simp only [Progress, Commanded, hst] at h hc
    obtain ⟨x, hend⟩ := h
    by_cases h53 : b.mc.cmd = 0x53#8
    · simp [mcProcessByte, hst, Bus.goto, h53, Progress, Commanded]
    · simp only [mcProcessByte, hst, Bus.goto, h53, if_false, Progress, Commanded]
      refine ⟨⟨x, tx, hend.snoc tx⟩, ?_⟩
      rcases hc with h | h | h
      · exact .inl h
      · exact .inr h
      · exact absurd h h53
  case addrMsb =>
    simp only [Progress, Commanded, hst] at h hc
    obtain ⟨x, y, hend⟩ := h
    simp only [mcProcessByte, hst]
    exact ⟨⟨x, y, hend.snoc tx⟩, hc⟩
  case addrLsb =>
    simp only [Progress, Commanded, hst] at h hc
    obtain ⟨x, y, hend⟩ := h
    by_cases hread : b.mc.cmd = 0x52#8
    · simp only [mcProcessByte, hst, mcAddrLsb, if_pos hread]
      exact ⟨trivial, trivial⟩
    · simp only [mcProcessByte, hst, mcAddrLsb, if_neg hread]
      have hw : b.mc.cmd = 0x57#8 := hc.resolve_left hread
      rw [hw] at hend
      exact ⟨⟨by simp, rfl, x, y, by simpa using hend.snoc tx⟩, trivial⟩
  case writeData =>
    simp only [Progress, hst] at h
    obtain ⟨hidx, hsec, x, y, hend⟩ := h
    have hnext := hend.snoc tx
    rw [List.append_assoc, ← take_setIfInBounds b.mc.data hidx tx] at hnext
    by_cases hlast : 128 ≤ b.mc.dataIdx + 1
    · -- the 128th byte: the whole buffer is what was sent
      rw [take_of_length_le (by simpa using hlast)] at hnext
      simp only [mcProcessByte, hst, Progress, Commanded, if_pos hlast]
      exact ⟨⟨hsec, x, y, hnext⟩, trivial⟩
    · simp only [mcProcessByte, hst, Progress, Commanded, if_neg hlast]
      exact ⟨⟨by omega, hsec, x, y, hnext⟩, trivial⟩
  case writeChk =>
    simp only [mcProcessByte, hst, mcWriteChk]
    split_ifs <;> exact ⟨trivial, trivial⟩
  case readData =>
    by_cases hlast : 128 ≤ b.mc.dataIdx + 1
    · simp only [mcProcessByte, hst, if_pos hlast]
      exact ⟨trivial, trivial⟩
    · simp only [mcProcessByte, hst, if_neg hlast]
      exact ⟨trivial, trivial⟩
  all_goals
    simp only [mcProcessByte, hst, Bus.goto]
    exact ⟨trivial, trivial⟩

/-! ## 3. One byte on the bus -/

/-- A card that moves a data byte has its index inside the buffer. -/
def Indexed (m : McSlotState) : Prop :=
  m.state = .readData ∨ m.state = .writeData → m.dataIdx < 128

theorem mcProcessByte_indexed (tx : Byte) (b : Bus P) : Indexed (mcProcessByte tx b).1.mc := by
  cases hst : b.mc.state
  case readData | writeData =>
    simp only [mcProcessByte, hst, Indexed]
    split_ifs
    · simp
    · omega
  all_goals
    simp only [mcProcessByte, hst, mcAddrLsb, mcWriteChk]
    try split_ifs
  all_goals simp_all [Indexed, Bus.goto]

/-- Only the bus's own card is in the middle of something, and what it is in the middle of was on the
wire. -/
structure Tied (b : Bus P) (tr : List Event) : Prop where
  slots : ∀ i, (b.mcSlots i).state = .idle
  free : b.device ≠ .memcard → b.mc.state = .idle
  progress : Progress b.mc tr
  commanded : Commanded b.mc
  indexed : Indexed b.mc

theorem tied_of_idle (hslots : ∀ i, (b.mcSlots i).state = .idle) (hmc : b.mc.state = .idle) :
    Tied b tr :=
  ⟨hslots, fun _ => hmc, (progress_idle hmc tr).1, (progress_idle hmc tr).2, by simp [Indexed, hmc]⟩

/-- What a byte on the bus may do: keep the cards, or end a complete write -/
def Written (b b' : Bus P) (tr : List Event) : Prop :=
  b'.cards = b.cards ∨ ∃ w, IsWrite w ∧ w <:+ tr

theorem Tied.mcProcessByte (h : Tied b tr) (hdev : b.device = .memcard)
    (hopen : b.mc.state = .idle → tx = 0x81#8) :
    Tied (mcProcessByte tx b).1 (tr ++ [.byte tx]) ∧
      Written b (Sio.mcProcessByte tx b).1 (tr ++ [.byte tx]) := by
  obtain ⟨hd, hs, -⟩ := mcProcessByte_frame tx b
  obtain ⟨hp, hc⟩ := mcProcessByte_progress h.progress h.commanded hopen
  exact ⟨⟨fun i => by rw [hs]; exact h.slots i, fun hn => absurd (hd.trans hdev) hn, hp, hc,
    mcProcessByte_indexed tx b⟩, mcProcessByte_cards h.progress⟩

theorem tied_quiet {b' : Bus P} (hslots : ∀ i, (b'.mcSlots i).state = .idle)
    (hmc : b'.mc.state = .idle) (hcards : b'.cards = b.cards) :
    Tied b' (tr ++ [.byte tx]) ∧ Written b b' (tr ++ [.byte tx]) :=
  ⟨tied_of_idle hslots hmc, .inl hcards⟩

theorem Tied.select (h : Tied b tr) (slot : Slot) :
    Tied { (Bus.mcLoadSlot slot { b with selectedSlot := slot }).goto .idle with
      device := .memcard, mcSlot := slot } tr :=
  tied_of_idle h.slots rfl

/-- Nobody owns the bus: nothing is suspended, so that nothing is resumed or aborted. -/
theorem Tied.processUnowned (h : Tied b tr) (hdev : b.device = .none) (ctrl : BitVec 16) :
    Tied (processUnowned pad ctrl tx b).1 (tr ++ [.byte tx]) ∧
      Written b (Sio.processUnowned pad ctrl tx b).1 (tr ++ [.byte tx]) := by
  have hmc : b.mc.state = .idle := h.free (by simp [hdev])
  simp only [Sio.processUnowned]
  split_ifs with h01 hsave h81 hresume
  · exact absurd hmc hsave
  · exact tied_quiet h.slots hmc rfl
  · have hsel := (h.select (ctrlSlot ctrl)).mcProcessByte rfl fun _ => h81
    exact hsel
  · exact absurd (h.slots _) hresume.1
  · exact tied_quiet h.slots rfl rfl

theorem Tied.processCard (h : Tied b tr) (hdev : b.device = .memcard) (ctrl : BitVec 16) :
    Tied (processCard pad ctrl tx b).1 (tr ++ [.byte tx]) ∧
      Written b (Sio.processCard pad ctrl tx b).1 (tr ++ [.byte tx]) := by
  simp only [Sio.processCard]
  split_ifs with hidle h81 h01
  · exact h.mcProcessByte hdev fun _ => h81
  · exact tied_quiet h.slots hidle rfl
  · exact tied_quiet h.slots hidle rfl
  · exact h.mcProcessByte hdev fun hi => absurd hi hidle

/-- One byte on the bus keeps it, whoever answers. -/
theorem Tied.sioProcessByte (h : Tied b tr) (ctrl : BitVec 16) (tx : Byte) :
    Tied (sioProcessByte pad ctrl tx b).1 (tr ++ [.byte tx]) ∧
      Written b (Sio.sioProcessByte pad ctrl tx b).1 (tr ++ [.byte tx]) := by
  unfold Sio.sioProcessByte
  cases hdev : b.device with
  | none => exact h.processUnowned pad hdev ctrl
  | pad => exact tied_quiet h.slots (h.free (by simp [hdev])) rfl
  | memcard => exact h.processCard pad hdev ctrl

end

/-! ## 4. Runs of the port -/

/-- A property of the bus and the wire that a byte put on the bus under `SIO_CTRL = c`, a reset and a
deselect keep. Nothing else that the port does reaches it. -/
structure WireInvariant (c : BitVec 16) (J : State P → Prop) : Prop where
  of_eq : ∀ {s t : State P}, J s → t.bus = s.bus → t.trace = s.trace → J t
  process : ∀ {s : State P} (tx : Byte), s.ctrl = c → J s → J (s.process pad tx)
  reset : ∀ {s : State P}, J s → J (reset pad s)
  deselect : ∀ {s : State P}, J s → J (deselect pad s)

/-- The two states differ in the port's own timing and status only. -/
structure SameWire (s t : State P) : Prop where
  bus : t.bus = s.bus
  trace : t.trace = s.trace
  rxData : t.rxData = s.rxData
  ctrl : t.ctrl = s.ctrl

/-- They hold the same bytes in the shifter, too. -/
structure SameLine (s t : State P) : Prop extends SameWire s t where
  active : t.shifter.active = s.shifter.active
  byte : t.shifter.byte = s.shifter.byte
  buffered : t.shifter.buffered = s.shifter.buffered

theorem SameWire.trans {s t u : State P} (h : SameWire s t) (h' : SameWire t u) : SameWire s u :=
  ⟨h'.bus.trans h.bus, h'.trace.trans h.trace, h'.rxData.trans h.rxData, h'.ctrl.trans h.ctrl⟩

theorem SameLine.of_eq {s t : State P} (h : SameWire s t) (hsh : t.shifter = s.shifter) : SameLine s t :=
  ⟨h, by rw [hsh], by rw [hsh], by rw [hsh]⟩

theorem sameLine_settle (s : State P) : SameLine s s.settle := by
  unfold State.settle
  split <;> exact .of_eq ⟨rfl, rfl, rfl, rfl⟩ rfl

theorem sameLine_fireAck (s : State P) : SameLine s (sioFireAckIrq s) := by
  unfold sioFireAckIrq State.settle
  extract_lets en ack s₁
  split_ifs <;> exact .of_eq ⟨rfl, rfl, rfl, rfl⟩ rfl

/-- Behind the byte itself the end of a shift is only timing, and the byte that waits is next. -/
theorem shiftComplete_same (s : State P) :
    SameWire (s.process pad s.shifter.byte) (sioHandleShiftComplete pad s) ∧
      (sioHandleShiftComplete pad s).shifter.active = s.shifter.buffered ∧
      (sioHandleShiftComplete pad s).shifter.buffered = false := by
  unfold sioHandleShiftComplete
  extract_lets s₁ acked sh s₂ s₃
  have h₃ : SameWire s₁ s₃ ∧ s₃.shifter = { s.shifter with active := false } := by
    simp only [s₃]
    split <;> exact ⟨⟨rfl, rfl, rfl, rfl⟩, rfl⟩
  have hp : SameWire s₃ (promote s₃) ∧ (promote s₃).shifter.active = s.shifter.buffered ∧
      (promote s₃).shifter.buffered = false := by
    unfold promote
    cases hbuf : s.shifter.buffered <;> simp only [h₃.2, hbuf] <;> exact ⟨⟨rfl, rfl, rfl, rfl⟩, rfl, rfl⟩
  have hs := sameLine_settle (promote s₃)
  exact ⟨h₃.1.trans (hp.1.trans hs.toSameWire), hs.active.trans hp.2.1, hs.buffered.trans hp.2.2⟩

namespace WireInvariant

variable {pad} {c : BitVec 16} {J : State P → Prop} {s t : State P}

theorem same (h : WireInvariant pad c J) (hs : J s) (hst : SameWire s t) : J t :=
  h.of_eq hs hst.bus hst.trace

theorem pace (h : WireInvariant pad c J) (hc : s.ctrl = c) (hs : J s) (k : Nat) (remaining : Int) :
    J (pace pad k remaining s) := by
  induction k generalizing s remaining with
  | zero => exact hs
  | succ k ih =>
    unfold Sio.pace
    split_ifs with hdone
    · exact hs
    · extract_lets dt
      have ht : J (elapse dt s) := h.of_eq hs rfl rfl
      split
      · have hsame := (shiftComplete_same pad (elapse dt s)).1
        have hc' : (elapse dt s).ctrl = c := hc
        exact ih (hsame.ctrl.trans hc') (h.same (h.process _ hc' ht) hsame) _
      · have hsame := (sameLine_fireAck (takeAck (elapse dt s))).toSameWire
        have htake : J (takeAck (elapse dt s)) := h.of_eq hs rfl rfl
        exact ih (hsame.ctrl.trans hc) (h.same htake hsame) _
      · exact ht

theorem writeTx (h : WireInvariant pad c J) (hc : s.ctrl = c) (hs : J s) (tx : Byte) :
    J (writeTx pad tx s) := by
  unfold Sio.writeTx
  split_ifs
  · exact hs
  · unfold padTx
    extract_lets s₁ s₂ s₃
    have h₂ : J s₂ := h.of_eq hs rfl rfl
    have hp : J s₃ := h.process tx hc h₂
    split
    · exact h.of_eq hp rfl rfl
    · exact h.of_eq hp rfl rfl
  · unfold shiftTx
    extract_lets owner s₁
    split_ifs <;> exact h.of_eq hs rfl rfl

theorem txOff (h : WireInvariant pad c J) (hs : J s) (value : BitVec 16) : J (txOff value s) := by
  unfold Sio.txOff
  extract_lets t
  split_ifs <;> exact h.of_eq hs rfl rfl

theorem writeCtrl (h : WireInvariant pad c J) (hs : J s) (value : BitVec 16) :
    J (writeCtrl pad value s) := by
  unfold Sio.writeCtrl
  extract_lets old s₁ s₂ s₃ s₄ s₅
  have h₁ : J s₁ := h.of_eq hs rfl rfl
  have h₂ : J s₂ := by
    unfold s₂
    split
    · exact h.of_eq h₁ rfl rfl
    · exact h₁
  have h₃ : J s₃ := by
    unfold s₃
    split
    · exact h.reset h₂
    · exact h₂
  have h₄ : J s₄ := by
    unfold s₄
    split
    · exact h.of_eq h₃ rfl rfl
    · exact h₃
  have h₅ : J s₅ := by
    unfold s₅
    split
    · exact h.txOff h₄ value
    · exact h₄
  split
  · exact h.deselect h₅
  · exact h₅

theorem step (h : WireInvariant pad s.ctrl J) (hs : J s) (op : Op) : J (step pad s op) := by
  cases op with
  | write addr value =>
    simp only [Sio.step, sioWrite]
    split_ifs
    · exact h.writeTx rfl hs _
    · exact h.of_eq hs rfl rfl
    · exact h.writeCtrl hs _
    · exact h.of_eq hs rfl rfl
    · exact hs
  | read addr =>
    simp only [Sio.step, sioRead, readStat]
    split_ifs <;> exact h.of_eq hs rfl rfl
  | advance cycles =>
    simp only [Sio.step, sioAdvance]
    split_ifs
    · exact hs
    · exact h.pace rfl hs _ _
    · exact hs
  | tick cycles => exact h.pace rfl hs _ _

theorem run (h : ∀ c, WireInvariant pad c J) (hs : J s) (ops : List Op) : J (run pad s ops) := by
  induction ops generalizing s with
  | nil => exact hs
  | cons op rest ih => exact ih ((h s.ctrl).step hs op)

end WireInvariant

/-! ## 5. What changes a card -/

section
variable {cards : Slot → Card} {n : Nat} {s t : State P}

/-- The cards are as they were when the trace had `n` events, or a complete write has been on the wire
since. -/
structure Kept (cards : Slot → Card) (n : Nat) (s : State P) : Prop where
  len : n ≤ s.trace.length
  tied : Tied s.bus (s.trace.drop n)
  cards : s.bus.cards = cards ∨ ∃ w, IsWrite w ∧ w <:+: s.trace.drop n

theorem Kept.of_eq (h : Kept cards n s) (hbus : t.bus = s.bus) (htr : t.trace = s.trace) :
    Kept cards n t :=
  ⟨htr ▸ h.len, by rw [hbus, htr]; exact h.tied, by rw [hbus, htr]; exact h.cards⟩

theorem Kept.break (h : Kept cards n s) (e : Event) (htr : t.trace = s.trace ++ [e])
    (hcards : t.bus.cards = s.bus.cards) (hmc : t.bus.mc.state = .idle)
    (hslots : ∀ i, (t.bus.mcSlots i).state = .idle) : Kept cards n t := by
  have hdrop : t.trace.drop n = s.trace.drop n ++ [e] := by
    rw [htr, drop_append_of_le_length h.len]
  refine ⟨?_, tied_of_idle hslots hmc, ?_⟩
  · rw [htr, length_append]
    exact h.len.trans (Nat.le_add_right _ _)
  · rw [hcards, hdrop]
    rcases h.cards with hc | ⟨w, hw, hin⟩
    · exact .inl hc
    · exact .inr ⟨w, hw, hin.trans (prefix_append _ _).isInfix⟩

theorem Kept.process (h : Kept cards n s) (tx : Byte) : Kept cards n (s.process pad tx) := by
  have hdrop : (s.trace ++ [Event.byte tx]).drop n = s.trace.drop n ++ [Event.byte tx] :=
    drop_append_of_le_length h.len
  obtain ⟨htied, hwritten⟩ := h.tied.sioProcessByte pad s.ctrl tx
  refine ⟨?_, ?_, ?_⟩
  · simp only [State.process, length_append]
    exact h.len.trans (Nat.le_add_right _ _)
  · simp only [State.process, hdrop]
    exact htied
  · simp only [State.process, hdrop]
    rcases hwritten with hsame | ⟨w, hw, hsuf⟩
    · rw [hsame]
      rcases h.cards with hc | ⟨w, hw, hin⟩
      · exact .inl hc
      · exact .inr ⟨w, hw, hin.trans (prefix_append _ _).isInfix⟩
    · exact .inr ⟨w, hw, hsuf.isInfix⟩

theorem kept_invariant (cards : Slot → Card) (n : Nat) (c : BitVec 16) :
    WireInvariant pad c (Kept cards n) where
  of_eq h hbus htr := h.of_eq hbus htr
  process tx _ h := h.process pad tx
  reset h := h.break .reset rfl rfl rfl fun _ => rfl
  deselect h := h.break .deselect rfl rfl rfl fun _ => rfl

/-- So does everything the port does besides. -/
theorem Kept.run (h : Kept cards n s) (ops : List Op) : Kept cards n (run pad s ops) :=
  WireInvariant.run (kept_invariant pad cards n) h ops

end

end PsxRecomp.Sio
