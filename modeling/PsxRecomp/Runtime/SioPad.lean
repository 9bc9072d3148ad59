import PsxRecomp.Runtime.SioCard

/-!
# `Runtime/SioPad.lean` — the DualShock behind the serial port

`pad_process_byte` of `runtime/src/sio.c` with its configuration mode, as the `Pad` of `Runtime.Sio`,
and the calls the host makes: stick and button updates, and the request for a type (the emulated ANALOG
button), which is kept until the pad applies it.
-/

set_option autoImplicit false

open Function

namespace PsxRecomp.Sio

open List

/-! ## 1. The controller -/

inductive PadState
  | idle | waitAccess | sendResponse
deriving DecidableEq, Repr

inductive Axis
  | leftX | leftY | rightX | rightY

/-- The pad variables. `response` is the first `pad_response_len` bytes of `pad_response`. -/
structure DualShock where
  state : PadState := .idle
  response : List Byte := []
  responseIdx : Nat := 0
  currentCmd : Byte := 0#8
  buttons : Slot → BitVec 16 := fun _ => 0xFFFF#16
  stick : Slot → Axis → Byte := fun _ _ => 0x80#8
  analog : Slot → Bool := fun _ => false
  locked : Slot → Bool := fun _ => false
  connected : Slot → Bool := fun _ => false
  inConfig : Slot → Bool := fun _ => false
  supportsConfig : Slot → Bool := fun _ => true
  typeReq : Slot → Option Bool := fun _ => none
  legacy : Bool := false

namespace DualShock

def rest (p : DualShock) : DualShock :=
  { p with state := .idle, response := [], responseIdx := 0, currentCmd := 0#8 }

/-- A pending request of this slot is applied at the next idle byte. -/
def Applies (p : DualShock) (slot : Slot) : Prop :=
  p.inConfig slot = false ∧ p.locked slot = false

instance (p : DualShock) (slot : Slot) : Decidable (p.Applies slot) :=
  inferInstanceAs (Decidable (_ ∧ _))

/-- The loop at the head of `pad_process_byte`, for both slots -/
def applyRequests (p : DualShock) : DualShock :=
  { p with
    analog := fun s => if p.Applies s then (p.typeReq s).getD (p.analog s) else p.analog s
    typeReq := fun s => if p.Applies s then none else p.typeReq s }

def curId (p : DualShock) (slot : Slot) : Byte :=
  if p.inConfig slot then 0xF3#8 else if p.analog slot then 0x73#8 else 0x41#8

/-- `btn & 0xFF, btn >> 8` -/
def buttonBytes (p : DualShock) (slot : Slot) : List Byte :=
  [(p.buttons slot).setWidth 8, (p.buttons slot >>> 8).setWidth 8]

/-- The four axes in the order of the frame -/
def stickBytes (p : DualShock) (slot : Slot) : List Byte :=
  [p.stick slot .rightX, p.stick slot .rightY, p.stick slot .leftX, p.stick slot .leftY]

def liveFrame (p : DualShock) (slot : Slot) (axes : Bool) : List Byte :=
  [p.curId slot, 0x5A#8] ++ p.buttonBytes slot ++ if axes then p.stickBytes slot else []

/-- `r_45` with the live analog status, `r_46`, `r_47`, `r_4c`, and the zero frame for the others -/
def configFrame (p : DualShock) (slot : Slot) (cmd : Byte) : List Byte :=
  if cmd = 0x45#8 then
    [0xF3#8, 0x5A#8, 0x03#8, if p.analog slot then 0x01#8 else 0x00#8, 0x01#8, 0x02#8, 0x01#8, 0x00#8]
  else if cmd = 0x46#8 then [0xF3#8, 0x5A#8, 0x00#8, 0x00#8, 0x01#8, 0x02#8, 0x00#8, 0x0A#8]
  else if cmd = 0x47#8 then [0xF3#8, 0x5A#8, 0x00#8, 0x00#8, 0x02#8, 0x00#8, 0x01#8, 0x00#8]
  else if cmd = 0x4C#8 then [0xF3#8, 0x5A#8, 0x00#8, 0x00#8, 0x00#8, 0x04#8, 0x00#8, 0x00#8]
  else [0xF3#8, 0x5A#8, 0x00#8, 0x00#8, 0x00#8, 0x00#8, 0x00#8, 0x00#8]

/-- The answer to a command, or none: the pad stays silent. -/
def respond (p : DualShock) (slot : Slot) (cmd : Byte) : Option (List Byte) :=
  if cmd = 0x42#8 then some (p.liveFrame slot (p.analog slot || p.inConfig slot))
  else if p.supportsConfig slot = true ∧ cmd = 0x43#8 then
    if p.legacy then some (p.configFrame slot cmd)
    else if p.inConfig slot = false then some (p.liveFrame slot (p.analog slot))
    else some [p.curId slot, 0x5A#8, 0x00#8, 0x00#8, 0x00#8, 0x00#8, 0x00#8, 0x00#8]
  else if p.supportsConfig slot = true ∧ p.legacy = true ∧
      cmd ∈ [0x45#8, 0x46#8, 0x47#8, 0x4C#8, 0x4D#8] then
    some (p.configFrame slot cmd)
  else if p.supportsConfig slot = true ∧ p.legacy = false ∧ p.inConfig slot = true ∧
      cmd ∈ [0x44#8, 0x45#8, 0x46#8, 0x47#8, 0x4C#8, 0x4D#8, 0x4F#8] then
    some (p.configFrame slot cmd)
  else none

/-- What the data bytes of `0x43` and `0x44` set -/
def latch (p : DualShock) (slot : Slot) (tx : Byte) : DualShock :=
  if p.legacy then p
  else if p.currentCmd = 0x43#8 ∧ p.responseIdx = 2 then
    { p with inConfig := Function.update p.inConfig slot (tx = 0x01#8) }
  else if p.currentCmd = 0x44#8 ∧ p.responseIdx = 2 then
    { p with
      analog := Function.update p.analog slot (tx = 0x01#8)
      typeReq := Function.update p.typeReq slot none }
  else if p.currentCmd = 0x44#8 ∧ p.responseIdx = 3 then
    if tx = 0x03#8 then { p with locked := Function.update p.locked slot true }
    else if tx = 0x02#8 then { p with locked := Function.update p.locked slot false }
    else p
  else p

/-- `case PAD_IDLE` -/
def accessByte (p : DualShock) (slot : Slot) (tx : Byte) : DualShock × Reply :=
  if tx = 0x01#8 ∧ p.connected slot = true then
    ({ p with state := .waitAccess }, ⟨0xFF#8, true, true⟩)
  else (p, ⟨0xFF#8, false, true⟩)

/-- `case PAD_WAIT_ACCESS` -/
def commandByte (p : DualShock) (slot : Slot) (tx : Byte) : DualShock × Reply :=
  match p.respond slot tx with
  | some r =>
    ({ p with state := .sendResponse, response := r, responseIdx := 1, currentCmd := tx },
      ⟨r.headD 0xFF#8, true, true⟩)
  | none => (p.rest, ⟨0xFF#8, false, true⟩)

/-- `case PAD_SEND_RESPONSE`, after the latches -/
def responseByte (p : DualShock) : DualShock × Reply :=
  match p.response[p.responseIdx]? with
  | some rx =>
    if p.responseIdx + 1 < p.response.length then
      ({ p with responseIdx := p.responseIdx + 1 }, ⟨rx, true, true⟩)
    else (p.rest, ⟨rx, false, true⟩)
  | none => (p.rest, ⟨0xFF#8, false, true⟩)

/-- `pad_process_byte` -/
def processByte (slot : Slot) (tx : Byte) (p : DualShock) : DualShock × Reply :=
  match p.state with
  | .idle => p.applyRequests.accessByte slot tx
  | .waitAccess => p.commandByte slot tx
  | .sendResponse => (p.latch slot tx).responseByte

/-- `sio_set_pad_sticks` -/
def setSticks (slot : Slot) (axes : Axis → Byte) (p : DualShock) : DualShock :=
  { p with stick := Function.update p.stick slot axes }

/-- `sio_set_pad_state_slot` -/
def setButtons (slot : Slot) (v : BitVec 16) (p : DualShock) : DualShock :=
  { p with buttons := Function.update p.buttons slot v }

/-- `sio_request_pad_type` -/
def requestType (slot : Slot) (want : Bool) (p : DualShock) : DualShock :=
  { p with
    typeReq := Function.update p.typeReq slot (if p.analog slot = want then none else some want) }

end DualShock

def dualShock : Pad DualShock := ⟨DualShock.processByte, DualShock.rest⟩

/-! ## 2. The bus and the host -/

section
variable {P : Type} (pad : Pad P)

def Bus.withPad (b : Bus P) (p : P) : Bus P := { b with pad := p }

def Bus.selectDrop (b : Bus P) : Bus P :=
  let slots := if b.device = .memcard
    then Function.update b.mcSlots b.mcSlot { b.mcSlots b.mcSlot with flag := b.mc.flag }
    else b.mcSlots
  { b with
    mc := { b.mc with state := .idle }
    mcSlots := fun i => (slots i).deselect
    device := .none
    pad := pad.idle b.pad }

def Bus.reset (b : Bus P) : Bus P :=
  { b with
    mc := { b.mc with state := .idle }
    mcSlots := fun i => { b.mcSlots i with state := .idle }
    device := .none
    pad := pad.idle b.pad }

theorem mcProcessByte_withPad (tx : Byte) (b : Bus P) (p : P) :
    (mcProcessByte tx (b.withPad p)).1 = (mcProcessByte tx b).1.withPad p := by
  have hmc : (b.withPad p).mc = b.mc := rfl
  cases hst : b.mc.state
  all_goals
    simp only [mcProcessByte, hmc, hst, mcAddrLsb, mcWriteChk]
    try split_ifs
  all_goals first | rfl | simp_all [Bus.withPad]

theorem mcProcessByte_reaches (c : Bus P) (tx : Byte) {d : Device} {f : P → Bus P}
    (hf : ∀ p, f p = (mcProcessByte tx (c.withPad p)).1) (hd : d ≠ .pad) :
    ∃ c : Bus P, d ≠ .pad ∧ ∀ p, f p = c.withPad p :=
  ⟨(mcProcessByte tx c).1, hd, fun p => (hf p).trans (mcProcessByte_withPad tx c p)⟩

theorem sioProcessByte_pad (b : Bus P) (ctrl : BitVec 16) (tx : Byte) :
    (∃ c : Bus P, b.device ≠ .pad ∧
      ∀ p, (sioProcessByte pad ctrl tx (b.withPad p)).1 = c.withPad p) ∨
    (∃ c : Bus P, c.device = .pad ∧ (c.selectedSlot = b.selectedSlot ∨ b.device ≠ .pad) ∧
      ∀ p, (sioProcessByte pad ctrl tx (b.withPad p)).1 =
        c.withPad (pad.processByte c.selectedSlot tx p).1) := by
  have hdevice : ∀ p, (b.withPad p).device = b.device := fun _ => rfl
  have hmc : ∀ p, (b.withPad p).mc = b.mc := fun _ => rfl
  cases hdev : b.device with
  | pad =>
    refine .inr ⟨b, hdev, .inl rfl, fun p => ?_⟩
    simp only [sioProcessByte, hdevice, hdev]
    rfl
  | none =>
    have hne : Device.none ≠ .pad := by decide
    simp only [sioProcessByte, hdevice, hdev, processUnowned]
    let b₁ : Bus P := { b with selectedSlot := ctrlSlot ctrl }
    by_cases h01 : tx = 0x01#8
    · simp only [if_pos h01]
      by_cases hst : b.mc.state = .idle
      · exact .inr ⟨{ b₁ with device := .pad }, rfl, .inr hne, fun p => by
          simp only [hmc, hst, ne_eq, not_true_eq_false, if_false]
          rfl⟩
      · exact .inr ⟨{ (b₁.mcSaveSlot b₁.mcSlot).goto .idle with device := .pad }, rfl,
          .inr hne, fun p => by
            simp only [hmc, hst, ne_eq, not_false_eq_true, if_true]
            rfl⟩
    · refine .inl ?_
      simp only [if_neg h01]
      by_cases h81 : tx = 0x81#8
      · simp only [if_pos h81]
        exact mcProcessByte_reaches { (b₁.mcLoadSlot b₁.selectedSlot).goto .idle with
          device := .memcard, mcSlot := b₁.selectedSlot } tx (fun _ => rfl) hne
      · simp only [if_neg h81]
        by_cases hresume : (b₁.mcLoadSlot b₁.selectedSlot).mc.state ≠ .idle ∧
            b₁.selectedSlot = b₁.mcSlot
        · refine mcProcessByte_reaches { b₁.mcLoadSlot b₁.selectedSlot with device := .memcard } tx
            (fun p => ?_) hne
          exact congrArg Prod.fst (if_pos hresume)
        · exact ⟨{ (b₁.mcLoadSlot b₁.selectedSlot).goto .idle with device := .none }, hne,
            fun p => congrArg Prod.fst (if_neg hresume)⟩
  | memcard =>
    have hne : Device.memcard ≠ .pad := by decide
    simp only [sioProcessByte, hdevice, hdev, processCard, hmc]
    let b₁ : Bus P := { b with device := .none, selectedSlot := ctrlSlot ctrl }
    by_cases hst : b.mc.state = .idle
    · simp only [if_pos hst]
      by_cases h81 : tx = 0x81#8
      · simp only [if_pos h81]
        exact .inl (mcProcessByte_reaches b tx (fun _ => rfl) hne)
      · simp only [if_neg h81]
        by_cases h01 : tx = 0x01#8
        · simp only [if_pos h01]
          exact .inr ⟨{ b₁ with device := .pad }, rfl, .inr hne, fun _ => rfl⟩
        · simp only [if_neg h01]
          exact .inl ⟨b₁, hne, fun _ => rfl⟩
    · simp only [if_neg hst]
      exact .inl (mcProcessByte_reaches b tx (fun _ => rfl) hne)

end

/-- What happens to the bus: a byte the port shifts out, SELECT dropped, a reset, and what the host does
to the pads. -/
inductive PadOp
  | byte (ctrl : BitVec 16) (tx : Byte)
  | selectDrop
  | reset
  | sticks (slot : Slot) (axes : Axis → Byte)
  | buttons (slot : Slot) (v : BitVec 16)
  | request (slot : Slot) (want : Bool)

def busStep (b : Bus DualShock) : PadOp → Bus DualShock
  | .byte ctrl tx => (sioProcessByte dualShock ctrl tx b).1
  | .selectDrop => b.selectDrop dualShock
  | .reset => b.reset dualShock
  | .sticks slot axes => b.withPad (b.pad.setSticks slot axes)
  | .buttons slot v => b.withPad (b.pad.setButtons slot v)
  | .request slot want => b.withPad (b.pad.requestType slot want)

def busRun (b : Bus DualShock) (ops : List PadOp) : Bus DualShock := ops.foldl busStep b

def bootBus (cards : Slot → Card) (connected supportsConfig analog : Slot → Bool) : Bus DualShock :=
  { cards := cards
    pad := { connected := connected, supportsConfig := supportsConfig, analog := analog } }

theorem busRun_append (b : Bus DualShock) (l l' : List PadOp) :
    busRun b (l ++ l') = busRun (busRun b l) l' :=
  foldl_append

/-- What a port whose `SIO_CTRL` is `c` does to the bus itself: it shifts a byte out under `c`, drops
SELECT or resets. -/
def PadOp.FromPort (c : BitVec 16) : PadOp → Prop
  | .byte ctrl _ => ctrl = c
  | .selectDrop | .reset => True
  | .sticks _ _ | .buttons _ _ | .request _ _ => False

/-- The port has taken the bus from `b` to `b'` under `c`. -/
def OnBus (b : Bus DualShock) (c : BitVec 16) (b' : Bus DualShock) : Prop :=
  ∃ ops, b' = busRun b ops ∧ ∀ op ∈ ops, op.FromPort c

theorem OnBus.step {b b' : Bus DualShock} {c : BitVec 16} (h : OnBus b c b') (op : PadOp)
    (hop : op.FromPort c) : OnBus b c (busStep b' op) := by
  obtain ⟨ops, rfl, hport⟩ := h
  refine ⟨ops ++ [op], (busRun_append b ops [op]).symm, ?_⟩
  exact forall_mem_append.mpr ⟨hport, forall_mem_singleton.mpr hop⟩

theorem onBus_invariant (b : Bus DualShock) (c : BitVec 16) :
    WireInvariant dualShock c fun s => OnBus b c s.bus where
  of_eq h hbus _ := by
    rw [hbus]
    exact h
  process {s} tx hc h := h.step (.byte s.ctrl tx) hc
  reset h := h.step .reset trivial
  deselect h := h.step .selectDrop trivial

/-- The port reaches its devices through bytes, drops of SELECT and resets only: a run of register
accesses and clock calls leaves the bus as a list of these does, and each byte goes out under the
`SIO_CTRL` the port had at the access or call that shifted it. -/
theorem port_run (s : State DualShock) (acts : List Op) :
    ∃ ops, (run dualShock s acts).bus = busRun s.bus ops ∧
      ∀ op ∈ ops, ∃ before, before <+: acts ∧ op.FromPort (run dualShock s before).ctrl := by
  induction acts using reverseRecOn with
  | nil => exact ⟨[], rfl, forall_mem_nil _⟩
  | append_singleton acts a ih =>
    obtain ⟨ops, hops, hport⟩ := ih
    let t := run dualShock s acts
    obtain ⟨new, hnew, hfrom⟩ :=
      (onBus_invariant t.bus t.ctrl).step ⟨[], rfl, forall_mem_nil _⟩ a
    refine ⟨ops ++ new, ?_, forall_mem_append.mpr ⟨fun op hop => ?_, fun op hop => ?_⟩⟩
    · rw [busRun_append, ← hops, ← hnew]
      simp [run, foldl_append, foldl_cons, foldl_nil, t]
    · obtain ⟨before, hpre, hop⟩ := hport op hop
      exact ⟨before, hpre.trans (prefix_append acts [a]), hop⟩
    · exact ⟨acts, prefix_append acts [a], hfrom op hop⟩

/-! ## 3. What a command leaves between its bytes -/

def WellSized (r : List Byte) : Prop :=
  ∃ id body, r = id :: body ∧ body.length = 1 + 2 * (id &&& 0x0F#8).toNat

namespace DualShock

variable {p : DualShock} {slot : Slot} {tx : Byte}

theorem configFrame_wellSized (p : DualShock) (slot : Slot) (cmd : Byte) :
    WellSized (p.configFrame slot cmd) ∧ (p.configFrame slot cmd).length = 8 := by
  unfold configFrame
  split_ifs <;> exact ⟨⟨_, _, rfl, rfl⟩, rfl⟩

theorem liveFrame_wellSized (p : DualShock) (slot : Slot) :
    WellSized (p.liveFrame slot (p.analog slot || p.inConfig slot)) := by
  refine ⟨_, _, rfl, ?_⟩
  cases hc : p.inConfig slot <;> cases ha : p.analog slot <;>
    simp [curId, buttonBytes, stickBytes, hc, ha]

/-- Every answer is as long as its ID says. -/
theorem respond_wellSized {r : List Byte} (h : p.respond slot tx = some r) : WellSized r := by
  unfold respond at h
  split_ifs at h with h42 h43 hlegacy hconfig
  all_goals obtain rfl := Option.some.inj h
  · exact p.liveFrame_wellSized slot
  · exact (p.configFrame_wellSized slot tx).1
  · -- outside configuration mode the frame is the poll's
    have hlive := p.liveFrame_wellSized slot
    rwa [hconfig, Bool.or_false] at hlive
  · have hin : p.inConfig slot = true := by simpa using hconfig
    exact ⟨_, _, rfl, by simp [curId, hin]⟩
  · exact (p.configFrame_wellSized slot tx).1
  · exact (p.configFrame_wellSized slot tx).1

theorem respond_setMode (hm : p.legacy = false) {r : List Byte} (h : p.respond slot 0x44#8 = some r) :
    p.inConfig slot = true ∧ p.supportsConfig slot = true ∧ r.length = 8 := by
  have hlen := (p.configFrame_wellSized slot 0x44#8).2
  simp only [respond, hm] at h
  split_ifs at h with h42 h43 hlegacy hconfig
  all_goals simp_all

/-- In the middle of a command the frame is well sized and not yet used up, and the slot is one that has
a pad; a command that sets the mode was given in configuration mode. -/
structure Ok (slot : Slot) (p : DualShock) : Prop where
  modern : p.legacy = false
  access : p.state ≠ .idle → p.connected slot = true
  frame : p.state = .sendResponse → WellSized p.response
  index : p.state = .sendResponse → 0 < p.responseIdx ∧ p.responseIdx < p.response.length
  config : p.state = .sendResponse → p.currentCmd = 0x44#8 →
    p.inConfig slot = true ∧ p.supportsConfig slot = true ∧ p.response.length = 8

theorem ok_of_idle (h : p.legacy = false) (hidle : p.state = .idle) (slot : Slot) : Ok slot p where
  modern := h
  access hne := absurd hidle hne
  frame hs := by simp [hidle] at hs
  index hs := by simp [hidle] at hs
  config hs := by simp [hidle] at hs

theorem latch_frame (p : DualShock) (slot : Slot) (tx : Byte) :
    (p.latch slot tx).state = p.state ∧ (p.latch slot tx).response = p.response ∧
      (p.latch slot tx).responseIdx = p.responseIdx ∧ (p.latch slot tx).currentCmd = p.currentCmd ∧
      (p.latch slot tx).connected = p.connected ∧
      (p.latch slot tx).supportsConfig = p.supportsConfig ∧ (p.latch slot tx).legacy = p.legacy ∧
      (p.currentCmd = 0x44#8 → (p.latch slot tx).inConfig = p.inConfig) := by
  unfold latch
  split_ifs with hl h43 <;> refine ⟨rfl, rfl, rfl, rfl, rfl, rfl, rfl, fun h44 => ?_⟩
  · rfl
  · cases h43.1.symm.trans h44
  all_goals rfl

theorem Ok.latch (h : Ok slot p) (tx : Byte) : Ok slot (p.latch slot tx) := by
  obtain ⟨hst, hr, hi, hc, hcon, hsup, hleg, hcfg⟩ := p.latch_frame slot tx
  refine ⟨hleg.trans h.modern, ?_, ?_, ?_, ?_⟩ <;> simp only [hst, hr, hi, hc, hcon, hsup]
  exacts [h.access, h.frame, h.index, fun hs h44 => hcfg h44 ▸ h.config hs h44]

theorem Ok.processByte (h : Ok slot p) (tx : Byte) : Ok slot (processByte slot tx p).1 := by
  unfold DualShock.processByte
  cases hst : p.state with
  | idle =>
    simp only [accessByte]
    split
    case isTrue hc =>
      exact ⟨h.modern, fun _ => hc.2, nofun, nofun, nofun⟩
    case isFalse => exact ok_of_idle (p := p.applyRequests) h.modern hst slot
  | waitAccess =>
    simp only [commandByte]
    split
    case h_1 r hr =>
      obtain ⟨id, body, rfl, hlen⟩ := respond_wellSized hr
      refine ⟨h.modern, fun _ => h.access (by simp [hst]), fun _ => ⟨id, body, rfl, hlen⟩,
        fun _ => ⟨Nat.one_pos, ?_⟩, fun _ h44 => ?_⟩
      · simp only [length_cons]
        omega
      · have htx : tx = 0x44#8 := h44
        rw [htx] at hr
        exact respond_setMode h.modern hr
    case h_2 => exact ok_of_idle (p := p.rest) h.modern rfl slot
  | sendResponse =>
    have hl := h.latch tx
    have hs := (p.latch_frame slot tx).1.trans hst
    simp only [responseByte]
    split
    · split
      case isTrue hlt =>
        exact ⟨hl.modern, fun _ => hl.access (by simp [hs]), fun _ => hl.frame hs,
          fun _ => ⟨Nat.succ_pos _, hlt⟩, fun _ => hl.config hs⟩
      case isFalse => exact ok_of_idle (p := (p.latch slot tx).rest) hl.modern rfl slot
    · exact ok_of_idle (p := (p.latch slot tx).rest) hl.modern rfl slot

end DualShock

/-- The pad that is in the middle of a command owns the bus. -/
structure Sound (b : Bus DualShock) : Prop where
  pad : b.pad.Ok b.selectedSlot
  free : b.device ≠ .pad → b.pad.state = .idle

variable {p : DualShock}

section
variable {b : Bus DualShock}

theorem Sound.device (h : Sound b) (hst : b.pad.state ≠ .idle) : b.device = .pad := by
  by_contra hne
  exact hst (h.free hne)

theorem Sound.host (h : Sound b) (hst : p.state = b.pad.state)
    (hok : p.Ok b.selectedSlot) : Sound (b.withPad p) :=
  ⟨hok, fun hne => hst.trans (h.free hne)⟩

theorem Sound.rest (h : Sound b) {b' : Bus DualShock} (hpad : b'.pad = b.pad.rest) : Sound b' := by
  have hidle : b'.pad.state = .idle := by
    rw [hpad]
    rfl
  have hmodern : b'.pad.legacy = false := by
    rw [hpad]
    exact h.pad.modern
  exact ⟨DualShock.ok_of_idle hmodern hidle _, fun _ => hidle⟩

theorem Sound.step (h : Sound b) (op : PadOp) : Sound (busStep b op) := by
  have hpad := h.pad
  cases op with
  | byte ctrl tx =>
    rcases sioProcessByte_pad dualShock b ctrl tx with ⟨c, hne, hstep⟩ | ⟨c, hc, hslot, hstep⟩
    · have hidle := h.free hne
      have hbus : busStep b (.byte ctrl tx) = _ := hstep b.pad
      rw [hbus]
      exact ⟨DualShock.ok_of_idle hpad.modern hidle _, fun _ => hidle⟩
    · have hbus : busStep b (.byte ctrl tx) = _ := hstep b.pad
      have hok : b.pad.Ok c.selectedSlot := by
        rcases hslot with hsame | hne
        · rw [hsame]
          exact hpad
        · exact DualShock.ok_of_idle hpad.modern (h.free hne) _
      rw [hbus]
      exact ⟨hok.processByte tx, fun hnot => absurd hc hnot⟩
  | selectDrop | reset => exact h.rest rfl
  | sticks | buttons | request =>
    exact h.host rfl ⟨hpad.modern, hpad.access, hpad.frame, hpad.index, hpad.config⟩

theorem Sound.run (h : Sound b) (ops : List PadOp) : Sound (busRun b ops) := by
  induction ops generalizing b with
  | nil => exact h
  | cons op ops ih => exact ih (h.step op)

end

variable {b : Bus DualShock}

theorem byte_owned (h : b.device = .pad) (ctrl : BitVec 16) (tx : Byte) :
    busStep b (.byte ctrl tx) = b.withPad (DualShock.processByte b.selectedSlot tx b.pad).1 ∧
      (sioProcessByte dualShock ctrl tx b).2.rx =
        (DualShock.processByte b.selectedSlot tx b.pad).2.rx := by
  simp only [busStep, sioProcessByte, h]
  exact ⟨rfl, rfl⟩

theorem sound_boot (cards : Slot → Card) (connected supportsConfig analog : Slot → Bool) :
    Sound (bootBus cards connected supportsConfig analog) :=
  ⟨DualShock.ok_of_idle rfl rfl _, fun _ => rfl⟩

/-! ## 4. The length of a command -/

def PadOp.Continues : PadOp → Prop
  | .selectDrop | .reset => False
  | _ => True

def PadOp.bytes : PadOp → Nat
  | .byte _ _ => 1
  | _ => 0

def byteCount (ops : List PadOp) : Nat := (ops.map PadOp.bytes).sum

/-- The command has `k` bytes still to send. -/
inductive Sending (b : Bus DualShock) : Nat → Prop
  | done (idle : b.pad.state = .idle) : Sending b 0
  | more {k : Nat} (device : b.device = .pad) (state : b.pad.state = .sendResponse)
      (left : b.pad.responseIdx + (k + 1) = b.pad.response.length) : Sending b (k + 1)

section
variable {b : Bus DualShock} {k : Nat}

theorem Sending.byte (h : Sending b (k + 1)) (ctrl : BitVec 16) (tx : Byte) :
    Sending (busStep b (.byte ctrl tx)) k := by
  cases h with | more hdev hst hleft =>
  rw [(byte_owned hdev ctrl tx).1]
  obtain ⟨hst', hr, hi, -⟩ := b.pad.latch_frame b.selectedSlot tx
  have hlt : b.pad.responseIdx < b.pad.response.length := by omega
  simp only [DualShock.processByte, hst, DualShock.responseByte, hr, hi,
    List.getElem?_eq_getElem hlt]
  cases k with
  | zero =>
    rw [if_neg (by omega)]
    exact .done rfl
  | succ k =>
    rw [if_pos (by omega)]
    refine .more hdev (hst'.trans hst) ?_
    change b.pad.responseIdx + 1 + (k + 1) = b.pad.response.length
    omega

theorem Sending.host (h : Sending b k) (hst : p.state = b.pad.state)
    (hr : p.response = b.pad.response) (hi : p.responseIdx = b.pad.responseIdx) :
    Sending (b.withPad p) k := by
  cases h with
  | done hidle => exact .done (hst.trans hidle)
  | more hdev hsend hleft =>
    refine .more hdev (hst.trans hsend) ?_
    change p.responseIdx + _ = p.response.length
    rw [hr, hi]
    exact hleft

theorem Sending.step (h : Sending b k) {op : PadOp} (hop : op.Continues) (hk : op.bytes ≤ k) :
    Sending (busStep b op) (k - op.bytes) := by
  cases op with
  | byte ctrl tx =>
    obtain ⟨k, rfl⟩ := Nat.exists_eq_add_of_le' hk
    exact h.byte ctrl tx
  | selectDrop | reset => exact hop.elim
  | sticks | buttons | request => exact h.host rfl rfl rfl

theorem Sending.run (h : Sending b k) {ops : List PadOp} (hops : ∀ op ∈ ops, op.Continues)
    (hk : byteCount ops ≤ k) : Sending (busRun b ops) (k - byteCount ops) := by
  induction ops generalizing b k with
  | nil => exact h
  | cons op ops ih =>
    obtain ⟨hop, hrest⟩ := forall_mem_cons.1 hops
    have hcount : byteCount (op :: ops) = op.bytes + byteCount ops := sum_cons
    have hstep := h.step hop (by omega)
    have hrun := ih hstep hrest (by omega)
    rwa [Nat.sub_sub] at hrun

theorem Sound.command (h : Sound b) (hst : b.pad.state = .waitAccess) (ctrl : BitVec 16) (tx : Byte)
    (hsend : (sioProcessByte dualShock ctrl tx b).1.pad.state = .sendResponse) :
    Sending (sioProcessByte dualShock ctrl tx b).1
      (1 + 2 * ((sioProcessByte dualShock ctrl tx b).2.rx &&& 0x0F#8).toNat) := by
  have hdev := h.device (by rw [hst]; decide)
  obtain ⟨hbus, hreply⟩ := byte_owned hdev ctrl tx
  change (sioProcessByte dualShock ctrl tx b).1 = _ at hbus
  rw [hbus] at hsend
  rw [hbus, hreply]
  simp only [DualShock.processByte, hst, DualShock.commandByte] at hsend ⊢
  cases hr : b.pad.respond b.selectedSlot tx with
  | none =>
    rw [hr] at hsend
    cases hsend
  | some r =>
    obtain ⟨id, body, rfl, hlen⟩ := DualShock.respond_wellSized hr
    simp only [headD_cons]
    rw [← hlen]
    cases body with
    | nil =>
      simp only [length_nil] at hlen
      omega
    | cons c body => exact .more hdev rfl (by simp [Bus.withPad, Nat.add_comm])

end

/-- A command that is not broken off sends, after its ID, as many bytes as the ID says. -/
def FrameLaw (b : Bus DualShock) : Prop :=
  ∀ ctrl tx, b.pad.state = .waitAccess →
    (sioProcessByte dualShock ctrl tx b).1.pad.state = .sendResponse →
    ∀ ops : List PadOp, (∀ op ∈ ops, op.Continues) →
      let length := 1 + 2 * ((sioProcessByte dualShock ctrl tx b).2.rx &&& 0x0F#8).toNat
      let after := busRun (sioProcessByte dualShock ctrl tx b).1 ops
      (byteCount ops < length → after.pad.state = .sendResponse) ∧
        (byteCount ops = length → after.pad.state = .idle)

/-- From the ID on, each byte leaves one less to send. -/
theorem Sound.frameLaw (h : Sound b) : FrameLaw b := by
  intro ctrl tx hst hsend ops hops length after
  have hstart := h.command hst ctrl tx hsend
  constructor
  · intro hlt
    have hrun := hstart.run hops hlt.le
    obtain ⟨k, hk⟩ := Nat.exists_eq_succ_of_ne_zero (Nat.sub_ne_zero_of_lt hlt)
    rw [hk] at hrun
    cases hrun with
    | more hdev hsend hleft => exact hsend
  · intro heq
    have hrun := hstart.run hops heq.le
    rw [heq, Nat.sub_self] at hrun
    cases hrun with
    | done hidle => exact hidle

/-! ## 5. The type a slot reports -/

variable {slot : Slot}

theorem DualShock.applyRequests_of_inConfig (h : p.inConfig slot = true) :
    p.applyRequests.analog slot = p.analog slot ∧ p.applyRequests.typeReq slot = p.typeReq slot := by
  have hnot : ¬ p.Applies slot := fun happ => by simp [happ.1] at h
  exact ⟨if_neg hnot, if_neg hnot⟩

theorem DualShock.processByte_analog {s : Slot} {tx : Byte}
    (h : (processByte s tx p).1.analog slot ≠ p.analog slot) :
    p.state = .idle ∧ p.inConfig slot = false ∨
      p.state = .sendResponse ∧ p.currentCmd = 0x44#8 ∧ s = slot := by
  unfold processByte at h
  cases hst : p.state with
  | idle =>
    refine .inl ⟨rfl, ?_⟩
    by_contra hcfg
    have hsame := (applyRequests_of_inConfig (Bool.eq_true_of_not_eq_false hcfg)).1
    simp only [hst, accessByte] at h
    split at h <;> exact h hsame
  | waitAccess =>
    simp only [hst, commandByte] at h
    split at h <;> exact absurd rfl h
  | sendResponse =>
    refine .inr ⟨rfl, ?_⟩
    have hlatch : (p.latch s tx).analog slot ≠ p.analog slot := by
      simp only [hst, responseByte] at h
      split at h
      · split at h <;> exact h
      · exact h
    unfold latch at hlatch
    split_ifs at hlatch with hl h43 h44
    · exact absurd rfl hlatch
    · exact absurd rfl hlatch
    · refine ⟨h44.1, ?_⟩
      by_contra hne
      exact hlatch (update_of_ne (Ne.symm hne) ..)
    all_goals exact absurd rfl hlatch

/-- A slot's type changes with a byte only: between commands outside configuration mode, or by the
game's `0x44` for that slot in configuration mode. -/
def TypeLaw (b : Bus DualShock) : Prop :=
  ∀ op slot, (busStep b op).pad.analog slot ≠ b.pad.analog slot →
    (∃ ctrl tx, op = .byte ctrl tx) ∧
      (b.pad.state = .idle ∧ b.pad.inConfig slot = false ∨
        b.pad.state = .sendResponse ∧ b.pad.currentCmd = 0x44#8 ∧ b.selectedSlot = slot ∧
          b.pad.inConfig slot = true)

theorem Sound.typeLaw (h : Sound b) : TypeLaw b := by
  intro op slot hne
  cases op with
  | byte ctrl tx =>
    refine ⟨⟨ctrl, tx, rfl⟩, ?_⟩
    rcases sioProcessByte_pad dualShock b ctrl tx with ⟨c, -, hstep⟩ | ⟨c, -, hslot, hstep⟩
    · have hbus : busStep b (.byte ctrl tx) = _ := hstep b.pad
      rw [hbus] at hne
      exact absurd rfl hne
    · have hbus : busStep b (.byte ctrl tx) = _ := hstep b.pad
      rw [hbus] at hne
      rcases DualShock.processByte_analog hne with hidle | ⟨hst, h44, hs⟩
      · exact .inl hidle
      · -- a pad in the middle of a command owns the bus, so the slot is still the selected one
        rcases hslot with hsame | hfree
        · have hsel : b.selectedSlot = slot := hsame.symm.trans hs
          refine .inr ⟨hst, h44, hsel, ?_⟩
          rw [← hsel]
          exact (h.pad.config hst h44).1
        · rw [h.free hfree] at hst
          cases hst
  | _ => exact absurd rfl hne

/-! ## 6. Requests under the lock -/

namespace DualShock

def forget (slot : Slot) (p : DualShock) : DualShock :=
  { p with typeReq := Function.update p.typeReq slot none }

/-- A command `0x44` for the slot is between its mode byte and its lock byte. -/
def Window (s slot : Slot) (p : DualShock) : Prop :=
  p.state = .sendResponse ∧ p.currentCmd = 0x44#8 ∧ p.responseIdx = 3 ∧ s = slot

/-- Nothing is pending, or the lock holds until the next mode byte drops it. -/
def Held (s slot : Slot) (p : DualShock) : Prop :=
  p.typeReq slot = none ∨ p.locked slot = true ∧ ¬ p.Window s slot

section
variable {p : DualShock} {s slot : Slot}

theorem forget_of_none (h : p.typeReq slot = none) : p.forget slot = p := by
  have hself : update p.typeReq slot none = p.typeReq := by
    rw [← h]
    exact update_eq_self slot p.typeReq
  rw [forget, hself]

theorem applyRequests_forget (h : p.locked slot = true) :
    (p.forget slot).applyRequests = p.applyRequests.forget slot := by
  have hnot : ¬ p.Applies slot := fun happ => by simp [happ.2] at h
  simp only [applyRequests, forget, DualShock.mk.injEq, true_and, and_true]
  refine ⟨funext fun i => ?_, funext fun i => ?_⟩
  · change (if p.Applies i then (update p.typeReq slot none i).getD (p.analog i)
      else p.analog i) = if p.Applies i then (p.typeReq i).getD (p.analog i) else p.analog i
    by_cases hi : i = slot
    · rw [hi, if_neg hnot, if_neg hnot]
    · rw [update_of_ne hi]
  · change (if p.Applies i then none else update p.typeReq slot none i) =
      update (fun j => if p.Applies j then none else p.typeReq j) slot none i
    by_cases hi : i = slot
    · rw [hi, if_neg hnot, update_self, update_self]
    · rw [update_of_ne hi, update_of_ne hi]

theorem latch_forget (s slot : Slot) (tx : Byte) (p : DualShock) :
    (p.forget slot).latch s tx = (p.latch s tx).forget slot := by
  have hlegacy : (p.forget slot).legacy = p.legacy := rfl
  have hcmd : (p.forget slot).currentCmd = p.currentCmd := rfl
  have hidx : (p.forget slot).responseIdx = p.responseIdx := rfl
  have hreq : update (update p.typeReq slot none) s none =
      update (update p.typeReq s none) slot none := by
    by_cases hs : s = slot
    · rw [hs]
    · exact update_comm (Ne.symm hs) ..
  simp only [latch, hlegacy, hcmd, hidx]
  split_ifs with hl h43 h44
  · rfl
  · rfl
  · exact congrArg (fun t => { p with
      analog := update p.analog s (tx = 0x01#8), typeReq := t }) hreq
  all_goals rfl

theorem accessByte_forget (s slot : Slot) (tx : Byte) (p : DualShock) :
    ((p.forget slot).accessByte s tx).1 = (p.accessByte s tx).1.forget slot := by
  have hconn : (p.forget slot).connected = p.connected := rfl
  simp only [accessByte, hconn]
  split <;> rfl

theorem responseByte_forget (slot : Slot) (p : DualShock) :
    (p.forget slot).responseByte.1 = p.responseByte.1.forget slot := by
  have hr : (p.forget slot).response = p.response := rfl
  have hi : (p.forget slot).responseIdx = p.responseIdx := rfl
  simp only [responseByte, hr, hi]
  split
  · split <;> rfl
  · rfl

theorem processByte_forget (h : p.locked slot = true) (s : Slot) (tx : Byte) :
    (processByte s tx (p.forget slot)).1 = (processByte s tx p).1.forget slot := by
  have hst : (p.forget slot).state = p.state := rfl
  simp only [processByte, hst]
  cases p.state with
  | idle =>
    simp only [applyRequests_forget h]
    exact accessByte_forget s slot tx p.applyRequests
  | waitAccess =>
    have hrespond : (p.forget slot).respond s tx = p.respond s tx := rfl
    simp only [commandByte, hrespond]
    cases p.respond s tx <;> rfl
  | sendResponse =>
    simp only [latch_forget]
    exact responseByte_forget slot (p.latch s tx)

theorem latch_locks (hm : p.legacy = false) (hst : p.state = .sendResponse) (s slot : Slot)
    (tx : Byte) :
    ((p.latch s tx).typeReq slot = none ∨ (p.latch s tx).typeReq slot = p.typeReq slot) ∧
      ((p.latch s tx).locked slot = p.locked slot ∨ p.Window s slot) ∧
      (p.currentCmd = 0x44#8 → p.responseIdx = 2 → s = slot →
        (p.latch s tx).typeReq slot = none) := by
  have hwindow (b : Bool) (h44 : p.currentCmd = 0x44#8 ∧ p.responseIdx = 3) :
      update p.locked s b slot = p.locked slot ∨ p.Window s slot := by
    by_cases hs : s = slot
    · exact .inr ⟨hst, h44.1, h44.2, hs⟩
    · exact .inl (update_of_ne (Ne.symm hs) ..)
  unfold latch
  split_ifs with hl h43 h44 hlock h3 h2
  · rw [hm] at hl
    cases hl
  · refine ⟨.inr rfl, .inl rfl, fun hcmd => ?_⟩
    rw [h43.1] at hcmd
    cases hcmd
  · by_cases hs : s = slot
    · subst hs
      exact ⟨.inl (update_self ..), .inl rfl, fun _ _ _ => update_self ..⟩
    · exact ⟨.inr (update_of_ne (Ne.symm hs) ..), .inl rfl, fun _ _ h => absurd h hs⟩
  · exact ⟨.inr rfl, hwindow true hlock, fun hcmd hidx => absurd ⟨hcmd, hidx⟩ h44⟩
  · exact ⟨.inr rfl, hwindow false hlock, fun hcmd hidx => absurd ⟨hcmd, hidx⟩ h44⟩
  all_goals exact ⟨.inr rfl, .inl rfl, fun hcmd hidx => absurd ⟨hcmd, hidx⟩ h44⟩

/-- What a byte does to the request and the lock of a slot -/
theorem processByte_locks (hm : p.legacy = false) (s slot : Slot) (tx : Byte) :
    ((processByte s tx p).1.typeReq slot = none ∨
        (processByte s tx p).1.typeReq slot = p.typeReq slot) ∧
      ((processByte s tx p).1.locked slot = p.locked slot ∨ p.Window s slot) ∧
      ((processByte s tx p).1.Window s slot → (processByte s tx p).1.typeReq slot = none) := by
  have hwait : ∀ q : DualShock, q.state ≠ .sendResponse → ¬ q.Window s slot := fun _ hq hw => hq hw.1
  unfold processByte
  cases hst : p.state with
  | idle =>
    have hreq : p.applyRequests.typeReq slot = none ∨
        p.applyRequests.typeReq slot = p.typeReq slot := by
      simp only [applyRequests]
      split
      · exact .inl rfl
      · exact .inr rfl
    simp only [accessByte]
    split
    · exact ⟨hreq, .inl rfl, fun hw => absurd hw (hwait _ nofun)⟩
    · refine ⟨hreq, .inl rfl, fun hw => absurd hw (hwait _ ?_)⟩
      change p.state ≠ _
      rw [hst]
      exact nofun
  | waitAccess =>
    simp only [commandByte]
    split
    · exact ⟨.inr rfl, .inl rfl, fun hw => by cases hw.2.2.1⟩
    · exact ⟨.inr rfl, .inl rfl, fun hw => absurd hw (hwait _ nofun)⟩
  | sendResponse =>
    obtain ⟨hreq, hlock, hmode⟩ := latch_locks hm hst s slot tx
    obtain ⟨-, -, hi, hc, -⟩ := p.latch_frame s tx
    simp only [responseByte]
    split
    · split
      · refine ⟨hreq, hlock, fun hw => hmode (hc.symm.trans hw.2.1) ?_ hw.2.2.2⟩
        have hidx : (p.latch s tx).responseIdx + 1 = 3 := hw.2.2.1
        omega
      · exact ⟨hreq, hlock, fun hw => absurd hw (hwait _ nofun)⟩
    · exact ⟨hreq, hlock, fun hw => absurd hw (hwait _ nofun)⟩

theorem Held.processByte (h : p.Held s slot) (hm : p.legacy = false) (tx : Byte) :
    (processByte s tx p).1.Held s slot := by
  obtain ⟨hreq, hlock, hwindow⟩ := processByte_locks hm s slot tx
  rcases h with hnone | ⟨hlocked, hnot⟩
  · rw [hnone, or_self] at hreq
    exact .inl hreq
  · rcases hlock with hsame | hw
    · by_cases hw' : (DualShock.processByte s tx p).1.Window s slot
      · exact .inl (hwindow hw')
      · exact .inr ⟨hsame.trans hlocked, hw'⟩
    · exact absurd hw hnot

theorem Held.forget_byte (h : p.Held s slot) (hm : p.legacy = false) (tx : Byte) :
    (DualShock.processByte s tx (p.forget slot)).1 = (DualShock.processByte s tx p).1.forget slot := by
  rcases h with hnone | ⟨hlocked, -⟩
  · have hreq := (processByte_locks hm s slot tx).1
    rw [hnone, or_self] at hreq
    rw [forget_of_none hnone, forget_of_none hreq]
  · exact processByte_forget hlocked s tx

end

end DualShock

def Bus.forget (slot : Slot) (b : Bus DualShock) : Bus DualShock := b.withPad (b.pad.forget slot)

/-- Two buses that agree, except that on the second a request of the slot is dropped which on the first
cannot take effect. -/
def Agree (slot : Slot) (b b' : Bus DualShock) : Prop :=
  b' = b ∨ b' = b.forget slot ∧ b.pad.Held b.selectedSlot slot

section
variable {slot : Slot} {b b' : Bus DualShock}

theorem held_of_idle {s : Slot} (h : p.Held s slot) {q : DualShock} (s' : Slot)
    (hq : q.state = .idle) (hreq : q.typeReq = p.typeReq) (hlock : q.locked = p.locked) :
    q.Held s' slot := by
  rcases h with hnone | ⟨hlocked, -⟩
  · exact .inl ((congrFun hreq slot).trans hnone)
  · refine .inr ⟨(congrFun hlock slot).trans hlocked, fun hw => ?_⟩
    rw [hw.1] at hq
    cases hq

theorem Agree.analog (h : Agree slot b b') : b'.pad.analog = b.pad.analog := by
  rcases h with rfl | ⟨rfl, -⟩ <;> rfl

/-- A request that the lock holds back makes no difference to anything else. -/
theorem Agree.step (hs : Sound b) (h : Agree slot b b') (op : PadOp) :
    Agree slot (busStep b op) (busStep b' op) := by
  rcases h with rfl | ⟨rfl, hheld⟩
  · exact .inl rfl
  cases op with
  | byte ctrl tx =>
    refine .inr ?_
    rcases sioProcessByte_pad dualShock b ctrl tx with ⟨c, hne, hstep⟩ | ⟨c, -, hslot, hstep⟩
    · have hbus : busStep b (.byte ctrl tx) = _ := hstep b.pad
      have hbus' : busStep (b.forget slot) (.byte ctrl tx) = _ := hstep (b.pad.forget slot)
      rw [hbus, hbus']
      exact ⟨rfl, held_of_idle hheld c.selectedSlot (hs.free hne) rfl rfl⟩
    · have hbus : busStep b (.byte ctrl tx) = _ := hstep b.pad
      have hbus' : busStep (b.forget slot) (.byte ctrl tx) = _ := hstep (b.pad.forget slot)
      have hheld' : b.pad.Held c.selectedSlot slot := by
        rcases hslot with hsame | hne
        · rw [hsame]
          exact hheld
        · exact held_of_idle hheld c.selectedSlot (hs.free hne) rfl rfl
      rw [hbus, hbus']
      exact ⟨congrArg c.withPad (hheld'.forget_byte hs.pad.modern tx), hheld'.processByte hs.pad.modern tx⟩
  | selectDrop | reset => exact .inr ⟨rfl, held_of_idle hheld _ rfl rfl rfl⟩
  | sticks | buttons => exact .inr ⟨rfl, hheld⟩
  | request i want =>
    by_cases hi : i = slot
    · -- the new request replaces what was pending
      subst hi
      refine .inl (congrArg (fun t => b.withPad { b.pad with typeReq := t }) ?_)
      exact update_idem ..
    · refine .inr ⟨congrArg (fun t => b.withPad { b.pad with typeReq := t })
        (update_comm (Ne.symm hi) ..), ?_⟩
      rcases hheld with hnone | hlocked
      · exact .inl ((update_of_ne (Ne.symm hi) ..).trans hnone)
      · exact .inr hlocked

theorem Agree.run (hs : Sound b) (h : Agree slot b b') (ops : List PadOp) :
    Agree slot (busRun b ops) (busRun b' ops) := by
  induction ops generalizing b b' with
  | nil => exact h
  | cons op ops ih => exact ih (hs.step op) (h.step hs op)

end

/-! ## 7. What a request between mode byte and lock byte does -/

namespace DualShock

def feed (slot : Slot) (bytes : List Byte) (p : DualShock) : DualShock :=
  bytes.foldl (fun p tx => (processByte slot tx p).1) p

section
variable {p : DualShock} {slot : Slot}

theorem Window.unlock (h : p.Window slot slot) (hok : p.Ok slot) :
    (processByte slot 0x02#8 p).1 =
      { p with locked := Function.update p.locked slot false, responseIdx := 4 } := by
  obtain ⟨hst, hcmd, hidx, -⟩ := h
  have hlen := (hok.config hst hcmd).2.2
  simp [processByte, hst, latch, hok.modern, hcmd, hidx, responseByte, hlen]

theorem feed_exit (hst : p.state = .idle) (hm : p.legacy = false) (hconn : p.connected slot = true)
    (hcfg : p.inConfig slot = true) (hds : p.supportsConfig slot = true) :
    (feed slot [0x01#8, 0x43#8, 0x00#8, 0x00#8] p).rest =
      { p.applyRequests.rest with inConfig := Function.update p.inConfig slot false } := by
  simp [feed, processByte, hst, accessByte, applyRequests, hconn, commandByte, respond, hds, hm, hcfg,
    latch, responseByte, curId, rest]

theorem feed_access (hst : p.state = .idle) (happ : p.Applies slot) :
    (feed slot [0x01#8] p).analog slot = (p.typeReq slot).getD (p.analog slot) := by
  have happly : p.applyRequests.analog slot = (p.typeReq slot).getD (p.analog slot) := if_pos happ
  simp only [feed, List.foldl, processByte, hst, accessByte]
  split <;> exact happly

/-- A request made between the two bytes takes effect once the game has left configuration mode. -/
theorem Window.release (h : p.Window slot slot) (hok : p.Ok slot) :
    (((processByte slot 0x02#8 p).1.rest.feed slot [0x01#8, 0x43#8, 0x00#8, 0x00#8]).rest.feed slot
      [0x01#8]).analog slot = (p.typeReq slot).getD (p.analog slot) := by
  obtain ⟨hcfg, hds, -⟩ := hok.config h.1 h.2.1
  have hconn := hok.access (by simp [h.1])
  let q : DualShock := { p with locked := update p.locked slot false, responseIdx := 4 }
  have hexit := feed_exit (p := q.rest) rfl hok.modern hconn hcfg hds
  rw [h.unlock hok, hexit, feed_access rfl]
  · obtain ⟨htype, hreq⟩ := applyRequests_of_inConfig (p := q.rest) hcfg
    change (q.rest.applyRequests.typeReq slot).getD (q.rest.applyRequests.analog slot) = _
    rw [htype, hreq]
    rfl
  · exact ⟨update_self .., update_self ..⟩

end

end DualShock

/-- `SIO_CTRL` with the slot's bit -/
def slotCtrl (slot : Slot) : BitVec 16 := if slot = 1 then 0x2000#16 else 0x0000#16

theorem ctrlSlot_slotCtrl (slot : Slot) : ctrlSlot (slotCtrl slot) = slot := by
  revert slot
  decide

/-- A transfer: SELECT dropped, and the bytes sent to the slot -/
def transfer (slot : Slot) (bytes : List Byte) : List PadOp :=
  .selectDrop :: bytes.map (.byte (slotCtrl slot))

theorem busRun_feed (h : b.device = .pad) (ctrl : BitVec 16) (bytes : List Byte) :
    busRun b (bytes.map (.byte ctrl)) = b.withPad (b.pad.feed b.selectedSlot bytes) := by
  induction bytes generalizing b with
  | nil => rfl
  | cons tx bytes ih =>
    change busRun (busStep b (.byte ctrl tx)) (bytes.map (.byte ctrl)) = _
    rw [(byte_owned h ctrl tx).1]
    exact ih h

theorem transfer_pad (b : Bus DualShock) (slot : Slot) (bytes : List Byte) :
    (busRun b (transfer slot (0x01#8 :: bytes))).pad = b.pad.rest.feed slot (0x01#8 :: bytes) := by
  -- the first byte wakes the pad
  change (busRun { b.selectDrop dualShock with
    device := .pad
    selectedSlot := ctrlSlot (slotCtrl slot)
    pad := (DualShock.processByte (ctrlSlot (slotCtrl slot)) 0x01#8 b.pad.rest).1 }
      (bytes.map (.byte (slotCtrl slot)))).pad = _
  rw [ctrlSlot_slotCtrl, busRun_feed rfl]
  rfl

/-- The game unlocks, leaves configuration mode and starts the next command. -/
def release (slot : Slot) : List PadOp :=
  .byte 0x0000#16 0x02#8 ::
    (transfer slot [0x01#8, 0x43#8, 0x00#8, 0x00#8] ++ transfer slot [0x01#8])

theorem release_analog (h : Sound b) (hw : b.pad.Window b.selectedSlot slot) :
    (busRun b (release slot)).pad.analog slot = (b.pad.typeReq slot).getD (b.pad.analog slot) := by
  have hdev := h.device (by rw [hw.1]; decide)
  have hok := h.pad
  have hunlock := (byte_owned hdev 0x0000#16 0x02#8).1
  have hsel := hw.2.2.2
  rw [hsel] at hw hok hunlock
  change (busRun (busStep b (.byte 0x0000#16 0x02#8)) (_ ++ _)).pad.analog slot = _
  rw [busRun_append, transfer_pad, transfer_pad, hunlock]
  exact hw.release hok

/-! ## 8. The controller's law -/

/-- The request does not take effect, now or later: the types go as if it had been dropped. -/
def Dropped (b : Bus DualShock) (slot : Slot) (want : Bool) : Prop :=
  ∀ ops, (busRun (busStep b (.request slot want)) ops).pad.analog =
    (busRun (b.forget slot) ops).pad.analog

/-- A request raised while the game holds the lock is dropped. -/
def LockLaw (b : Bus DualShock) : Prop :=
  ∀ slot want, b.pad.locked slot = true → Dropped b slot want

theorem dropped_of_held (h : Sound b)
    (hlocked : b.pad.locked slot = true) (hnot : ¬ b.pad.Window b.selectedSlot slot) (want : Bool) :
    Dropped b slot want := by
  intro ops
  have hforget : b.forget slot = (busStep b (.request slot want)).forget slot :=
    congrArg (fun t => b.withPad { b.pad with typeReq := t }) (update_idem ..).symm
  have hagree : Agree slot (busStep b (.request slot want)) (b.forget slot) :=
    .inr ⟨hforget, .inr ⟨hlocked, hnot⟩⟩
  exact (hagree.run (h.step _) ops).analog.symm

theorem not_dropped_of_window (h : Sound b)
    (hw : b.pad.Window b.selectedSlot slot) : ¬ Dropped b slot (!b.pad.analog slot) := by
  intro hdropped
  have hforget : Sound (b.forget slot) :=
    h.host rfl ⟨h.pad.modern, h.pad.access, h.pad.frame, h.pad.index, h.pad.config⟩
  have hreq : (busStep b (.request slot (!b.pad.analog slot))).pad.typeReq slot =
      some (!b.pad.analog slot) := by
    simp [busStep, Bus.withPad, DualShock.requestType]
  have hnone : (b.forget slot).pad.typeReq slot = none := update_self ..
  have heq := congrFun (hdropped (release slot)) slot
  have hstep := h.step (.request slot (!b.pad.analog slot))
  rw [release_analog hstep hw, release_analog hforget hw, hreq, hnone] at heq
  exact Bool.not_ne_self _ heq

/-- On every history of bytes to both slots, drops of SELECT, resets and host calls: commands are as
long as their ID says and types change where they may, and requests under the lock are dropped exactly
as long as no `0x44` for a locked slot is between its mode byte and its lock byte. A request under the
lock stays pending; what drops it in time is that an unlock is a `0x44` too, whose mode byte clears it
one byte before the lock byte unlocks. -/
theorem dualshock_iff (cards : Slot → Card) (connected supportsConfig analog : Slot → Bool)
    (ops : List PadOp) :
    let b := busRun (bootBus cards connected supportsConfig analog) ops
    (FrameLaw b ∧ TypeLaw b ∧ LockLaw b) ↔
      ∀ slot, b.pad.locked slot = true → ¬ b.pad.Window b.selectedSlot slot := by
  intro b
  have hsound : Sound b := (sound_boot cards connected supportsConfig analog).run ops
  constructor
  · rintro ⟨-, -, hlock⟩ slot hlocked hw
    exact not_dropped_of_window hsound hw (hlock slot _ hlocked)
  · intro hno
    exact ⟨hsound.frameLaw, hsound.typeLaw, fun slot want hlocked =>
      dropped_of_held hsound hlocked (hno slot hlocked) want⟩

/-- A pad in the first slot, whose game has locked the digital type and is about to unlock it: the mode
byte of the second `0x44` is through, its lock byte is next. -/
def unlocking : Bus DualShock :=
  busRun (bootBus (fun _ => ⟨false, fun _ => Vector.replicate 128 0#8⟩) (fun _ => true) (fun _ => true)
      fun _ => false)
    (transfer 0 [0x01#8, 0x43#8, 0x00#8, 0x01#8] ++
      transfer 0 [0x01#8, 0x44#8, 0x00#8, 0x00#8, 0x03#8] ++
      transfer 0 [0x01#8, 0x44#8, 0x00#8, 0x00#8])

/-- The host's request for the analog type comes before the lock byte, while the lock still holds, and the
slot turns analog once the game has unlocked and left configuration mode. Without it the slot stays
digital. -/
theorem request_survives_lock :
    unlocking.pad.locked 0 = true ∧
      (busRun (busStep unlocking (.request 0 true)) (release 0)).pad.analog 0 = true ∧
      (busRun unlocking (release 0)).pad.analog 0 = false ∧ ¬ LockLaw unlocking := by
  have hlocked : unlocking.pad.locked 0 = true := by decide +kernel
  have htaken : (busRun (busStep unlocking (.request 0 true)) (release 0)).pad.analog 0 = true := by
    decide +kernel
  have hnone : (busRun unlocking (release 0)).pad.analog 0 = false := by decide +kernel
  have hdropped : (busRun (unlocking.forget 0) (release 0)).pad.analog 0 = false := by decide +kernel
  refine ⟨hlocked, htaken, hnone, fun hlaw => ?_⟩
  have heq := congrFun (hlaw 0 true hlocked (release 0)) 0
  rw [htaken, hdropped] at heq
  cases heq

end PsxRecomp.Sio
