import PsxRecomp.Runtime.DmaWords
import PsxRecomp.Runtime.Mdec

/-!
# `Runtime/MdecPipe.lean` — the MDEC between its two DMA channels

Channel 0 feeds command and payload words from RAM, channel 1 stores the decoded words in RAM, and
`dma_advance` moves each of them along as far as a slice allows. A new decode command discards what is
left in the output buffer; what keeps it from doing so is that the device is not ready for input before
its output has been read.
-/

set_option autoImplicit false

namespace PsxRecomp.Dma

open Mdec

/-! ## 1. Invariants of the environment -/

section
variable {E : Type} {bus : Bus E} {I : E → Prop}

structure BusKeeps (bus : Bus E) (I : E → Prop) : Prop where
  writeWord : ∀ e ch a v, ch ≠ 1 → I e → I (bus.writeWord e ch a v)
  gpuRead : ∀ e, I e → I (bus.gpuRead e).2
  gpuWrite : ∀ e a v, I e → I (bus.gpuWrite e a v)
  spuWrite : ∀ e v, I e → I (bus.spuWrite e v)
  cdromRead : ∀ e, I e → I (bus.cdromRead e).2
  markExecutable : ∀ e a, I e → I (bus.markExecutable e a)
  irqRaise : ∀ e v, I e → I (bus.irqRaise e v)

/-- The same of the MDEC channels, which ask the device first. -/
structure MdecKeeps (bus : Bus E) (I : E → Prop) : Prop extends BusKeeps bus I where
  mdecIn : ∀ e a, bus.mdecWriteReady e = true → I e → I (bus.mdecWriteWord e (bus.readWord e a))
  mdecOut : ∀ e a, InRam a → bus.mdecReadReady e = true → I e →
    I (bus.writeWord (bus.mdecReadWord e).2 1 a (bus.mdecReadWord e).1)

theorem moveWords_keeps {ready : E → Bool} {move : Word → E → E}
    (h : ∀ e a, InRam a → ready e = true → I e → I (move a e)) (step : Word) (n : Nat)
    {addr : Word} {e : E} (ha : InRam addr) (he : I e) :
    I (moveWords ready move step n addr e).2.2 := by
  induction n generalizing addr e with
  | zero => exact he
  | succ n ih =>
    unfold moveWords
    split
    next hready => exact ih (inRam_and _) (h e addr ha hready he)
    next => exact he

section
variable (hk : BusKeeps bus I) {s s' : State E} {ch : Fin 7}
include hk

theorem completeTransfer_keeps (h : I s.env) : I (completeTransfer bus ch s).env := by
  unfold completeTransfer raiseOnMasterEdge
  dsimp only
  split_ifs
  · exact hk.irqRaise _ _ h
  · exact h
  · exact h

theorem scheduleDelayedComplete_keeps {words cycles : Nat} (h : I s.env) :
    I (scheduleDelayedComplete bus ch words cycles s).env := by
  unfold scheduleDelayedComplete
  split
  · exact completeTransfer_keeps hk h
  · exact h

theorem gpuLinkedList_keeps (k : Nat) (addr : Word) (words : Nat) {e : E} (h : I e) :
    I (gpuLinkedList bus k addr words e).2.2 := by
  induction k generalizing addr words e with
  | zero => exact h
  | succ k ih =>
    have hnode : I (moveWords (fun _ => true) (fun a e => bus.gpuWrite e a (bus.readWord e a)) 4#32
        ((bus.readWord e addr >>> 24) &&& 0xFF#32).toNat (nextAddr 4#32 addr) e).2.2 :=
      moveWords_keeps (fun e a _ _ he => hk.gpuWrite e a _ he) _ _ (inRam_and _) h
    unfold gpuLinkedList
    dsimp only
    split
    · exact hnode
    · exact ih _ _ hnode

theorem executeCh2Gpu_keeps (h : I s.env) : I (executeCh2Gpu bus s).2.env := by
  have hto (n : Nat) : I (moveWords (fun _ => true)
      (fun a e => bus.writeWord (bus.gpuRead e).2 2 a (bus.gpuRead e).1) (s.channels 2).addrStep n
      (s.channels 2).startAddr s.env).2.2 :=
    moveWords_keeps (fun e a _ _ he => hk.writeWord _ 2 a _ (by decide) (hk.gpuRead e he)) _ _
      (inRam_and _) h
  have hfrom (n : Nat) : I (moveWords (fun _ => true)
      (fun a e => bus.gpuWrite e a (bus.readWord e a)) (s.channels 2).addrStep n
      (s.channels 2).startAddr s.env).2.2 :=
    moveWords_keeps (fun e a _ _ he => hk.gpuWrite e a _ he) _ _ (inRam_and _) h
  have hlist := gpuLinkedList_keeps hk gpuMaxNodes (s.channels 2).startAddr 0 h
  generalize hn : gpuMaxNodes = k at hlist
  unfold executeCh2Gpu
  simp only [hn]
  generalize (if (s.channels 2).blockSize = 0 then 0x10000 else (s.channels 2).blockSize) = n
  split_ifs
  · exact hto _
  · exact h
  · exact hfrom _
  · exact hlist
  · exact hfrom n

theorem executeCh4Spu_keeps (h : I s.env) : I (executeCh4Spu bus s).2.env := by
  refine moveWords_keeps (fun e a _ _ he => ?_) _ _ (inRam_and _) h
  split
  · exact hk.spuWrite e _ he
  · exact hk.writeWord e 4 a _ (by decide) he

theorem clearTable_keeps (n : Nat) (addr : Word) {e : E} (h : I e) : I (clearTable bus n addr e) := by
  induction n generalizing addr e with
  | zero => exact h
  | succ n ih => exact ih _ (hk.writeWord e 6 addr _ (by decide) h)

theorem startAsyncCdrom_keeps (h : I s.env) : I (startAsyncCdromTransfer bus s).env := by
  unfold startAsyncCdromTransfer
  dsimp only
  split_ifs
  · exact h
  · exact completeTransfer_keeps hk h
  · exact h

theorem tryExecute_keeps (h : I s.env) (heq : tryExecute bus ch s = some s') : I s'.env := by
  unfold tryExecute execute at heq
  dsimp only at heq
  split_ifs at heq
  · cases heq
    exact h
  · cases heq
    exact h
  · have hmdec {c : Fin 7} {s : State E} (h : I s.env) : I (startAsyncMdecTransfer bus c s).env := by
      unfold startAsyncMdecTransfer
      split <;> exact h
    match ch with
    | 0 | 1 =>
      cases heq
      exact hmdec h
    | 2 =>
      cases heq
      exact scheduleDelayedComplete_keeps hk (executeCh2Gpu_keeps hk h)
    | 3 =>
      cases heq
      unfold executeCh3Cdrom
      split
      · exact h
      · exact startAsyncCdrom_keeps hk h
    | 4 =>
      cases heq
      exact scheduleDelayedComplete_keeps hk (executeCh4Spu_keeps hk h)
    | 5 => cases heq
    | 6 =>
      cases heq
      exact completeTransfer_keeps hk (clearTable_keeps hk _ _ h)

theorem dmaWriteMasked_keeps {addr val mask : Word} (h : I s.env)
    (heq : dmaWriteMasked bus addr val mask s = some s') : I s'.env := by
  unfold dmaWriteMasked at heq
  cases hreg : Reg.ofAddr addr with
  | dicr =>
    simp only [hreg, Option.some.injEq] at heq
    subst heq
    unfold raiseOnMasterEdge
    split
    · exact hk.irqRaise _ _ h
    · exact h
  | chcr ch =>
    simp only [hreg, writeChcr] at heq
    split_ifs at heq
    · refine tryExecute_keeps hk ?_ heq
      exact h
    · cases heq
      exact h
    · cases heq
      exact h
  | dpcr | madr ch | bcr ch | none =>
    simp only [hreg, Option.some.injEq] at heq
    subst heq
    exact h

theorem advanceAsync_keeps {ready : E → Bool} {move : Word → E → E}
    (hmove : ∀ e a, InRam a → ready e = true → I e → I (move a e)) (cyclesPerWord cycles : Nat)
    (h : I s.env) : I (advanceAsync bus ready move cyclesPerWord cycles ch s).env := by
  have hmoved : ∀ n, I (moveWords ready move (s.channels ch).addrStep n
      (s.channels ch).startAddr s.env).2.2 :=
    fun n => moveWords_keeps hmove _ _ (inRam_and _) h
  unfold advanceAsync
  dsimp only
  split_ifs
  · exact hmoved _
  · exact completeTransfer_keeps hk (hmoved _)
  · exact hmoved _

end

section
variable (hk : MdecKeeps bus I) {s : State E}
include hk

theorem advanceMdecChannel_keeps {ch : Fin 7} {cycles : Nat} (h : I s.env) :
    I (advanceMdecChannel bus ch cycles s).env := by
  unfold advanceMdecChannel
  split_ifs
  · exact h
  · exact h
  · exact completeTransfer_keeps hk.toBusKeeps h
  · exact h
  · exact advanceAsync_keeps hk.toBusKeeps (fun e a _ => hk.mdecIn e a) _ _ h
  · exact h
  · exact advanceAsync_keeps hk.toBusKeeps hk.mdecOut _ _ h

theorem advanceCdrom_keeps {cycles : Nat} (h : I s.env) : I (advanceCdrom bus cycles s).env := by
  unfold advanceCdrom
  split_ifs
  · exact h
  · exact h
  · refine advanceAsync_keeps hk.toBusKeeps (fun e a _ _ he => ?_) _ _ h
    exact hk.markExecutable _ a (hk.writeWord _ 3 a _ (by decide) (hk.cdromRead e he))

theorem dmaAdvance_keeps {cycles : Word} (h : I s.env) : I (dmaAdvance bus cycles s).env := by
  refine StageInv.advance (I := fun s => I s.env) ⟨fun _ _ _ _ => advanceMdecChannel_keeps hk,
    fun _ _ => advanceCdrom_keeps hk, fun d n s h => ?_⟩ h cycles
  unfold advanceDelayedComplete
  split_ifs
  exacts [h, h, completeTransfer_keeps hk.toBusKeeps h]

end

end

/-! ## 2. The pipeline -/

structure Devices (D : Type) where
  gpuRead : D → Word × D
  gpuWrite : D → Word → Word → D
  spuWrite : D → Word → D
  cdromReady : D → Bool
  cdromRead : D → Word × D
  cdromSectorWords : D → Nat
  markExecutable : D → Word → D
  irqRaise : D → Word → D

/-- RAM, the CPU's cache isolation bit, the MDEC and the other devices. `fed` and `stored` record the
words channel 0 fed to the MDEC and the words channel 1 stored in RAM. -/
structure Env (D : Type) where
  ram : Nat → Ram.Byte
  isolated : Bool
  mdec : Mdec.State
  devices : D
  fed : List Word
  stored : List Word

section
variable {D : Type} (dev : Devices D)

/-- `psx_write_word`, from a channel -/
def Env.store (e : Env D) (ch : Fin 7) (addr val : Word) : Env D :=
  match Ram.storeTarget e.isolated addr with
  | none => e
  | some phys =>
    { e with
      ram := Ram.write e.ram phys (Ram.Width.word.bytes val)
      stored := if ch = 1 then e.stored ++ [val] else e.stored }

def pipeBus : Bus (Env D) where
  readWord e addr := Words.leWord e.ram (Ram.physAddr addr)
  writeWord := Env.store
  mdecWriteReady e := Mdec.writeReady e.mdec
  mdecWriteWord e v := { e with mdec := Mdec.writeData e.mdec v, fed := e.fed ++ [v] }
  mdecReadReady e := Mdec.readReady e.mdec
  mdecReadWord e := ((Mdec.readWord e.mdec).1, { e with mdec := (Mdec.readWord e.mdec).2 })
  gpuRead e := ((dev.gpuRead e.devices).1, { e with devices := (dev.gpuRead e.devices).2 })
  gpuWrite e addr v := { e with devices := dev.gpuWrite e.devices addr v }
  spuWrite e v := { e with devices := dev.spuWrite e.devices v }
  cdromReady e := dev.cdromReady e.devices
  cdromRead e := ((dev.cdromRead e.devices).1, { e with devices := (dev.cdromRead e.devices).2 })
  cdromSectorWords e := dev.cdromSectorWords e.devices
  markExecutable e addr := { e with devices := dev.markExecutable e.devices addr }
  irqRaise e v := { e with devices := dev.irqRaise e.devices v }

/-- Register writes, slices, and whatever the CPU and the other devices do to RAM and to themselves
meanwhile. -/
inductive PipeOp (D : Type) where
  | write (addr val mask : Word)
  | advance (cycles : Word)
  | cpu (ram : Nat → Ram.Byte) (isolated : Bool) (devices : D)

def pipeStep : PipeOp D → State (Env D) → Option (State (Env D))
  | .write addr val mask, s => dmaWriteMasked (pipeBus dev) addr val mask s
  | .advance cycles, s => some (dmaAdvance (pipeBus dev) cycles s)
  | .cpu ram isolated devices, s =>
    some { s with env := { s.env with ram := ram, isolated := isolated, devices := devices } }

def PipeOk : PipeOp D → State (Env D) → Prop
  | .advance _, s => s.env.isolated = false
  | _, _ => True

def PipeStart (s : State (Env D)) : Prop :=
  ∃ ram isolated devices, s = reset ⟨ram, isolated, Mdec.init, devices, [], []⟩

def bytesOf (ws : List Word) : List Ram.Byte := ws.flatMap Ram.Width.word.bytes

/-- The words stored in RAM, and after them what is still in the buffer, are the outputs of the
commands fed. -/
def Lossless (e : Env D) : Prop :=
  Mdec.outputs Mdec.init.tables e.fed =
    bytesOf e.stored ++ e.mdec.output.drop e.mdec.outputPos

/-! ## 3. Nothing is lost -/

def Flows (e : Env D) : Prop := Mdec.Agrees Mdec.init.tables e.fed (bytesOf e.stored) e.mdec

theorem store_eq {e : Env D} {ch : Fin 7} (hch : ch ≠ 1) (addr val : Word) :
    (e.store ch addr val).mdec = e.mdec ∧ (e.store ch addr val).fed = e.fed ∧
      (e.store ch addr val).stored = e.stored := by
  unfold Env.store
  split
  · exact ⟨rfl, rfl, rfl⟩
  · exact ⟨rfl, rfl, if_neg hch⟩

theorem store_isolated (e : Env D) (ch : Fin 7) (addr val : Word) :
    (e.store ch addr val).isolated = e.isolated := by
  unfold Env.store
  split <;> rfl

theorem busKeeps_flows (iso : Bool) :
    BusKeeps (pipeBus dev) fun e => Flows e ∧ e.isolated = iso where
  writeWord e ch a v hch h := by
    obtain ⟨hm, hf, hs⟩ := store_eq hch a v (e := e)
    refine ⟨?_, (store_isolated e ch a v).trans h.2⟩
    change Flows (e.store ch a v)
    rw [Flows, hm, hf, hs]
    exact h.1
  gpuRead _ h := h
  gpuWrite _ _ _ h := h
  spuWrite _ _ h := h
  cdromRead _ h := h
  markExecutable _ _ h := h
  irqRaise _ _ h := h

theorem flows_out {e : Env D} (h : Flows e) (hready : Mdec.readReady e.mdec = true)
    (hiso : e.isolated = false) {a : Word} (ha : InRam a) :
    Flows (Env.store { e with mdec := (Mdec.readWord e.mdec).2 } 1 a (Mdec.readWord e.mdec).1) := by
  have hphys := storeTarget_inRam ha
  have hbytes : bytesOf (e.stored ++ [(readWord e.mdec).1]) =
      bytesOf e.stored ++ Ram.Width.word.bytes (readWord e.mdec).1 := by
    simp [bytesOf]
  have hread := readWord_agrees h hready
  rw [← hbytes] at hread
  have htarget : Ram.storeTarget ({ e with mdec := (readWord e.mdec).2 } : Env D).isolated a =
      some a.toNat := by
    rw [← hphys, ← hiso]
  unfold Env.store
  rw [htarget]
  simp only [Flows]
  exact hread

theorem mdecKeeps_flows : MdecKeeps (pipeBus dev) fun e => Flows e ∧ e.isolated = false where
  toBusKeeps := busKeeps_flows dev false
  mdecIn e a hready h := ⟨writeData_agrees h.1 hready _, h.2⟩
  mdecOut e a ha hready h := by
    simp only [pipeBus, store_isolated]
    exact ⟨flows_out h.1 hready h.2 ha, h.2⟩

theorem pipeStep_flows {op : PipeOp D} {s s' : State (Env D)} (h : Flows s.env) (hok : PipeOk op s)
    (heq : pipeStep dev op s = some s') : Flows s'.env := by
  cases op with
  | write addr val mask =>
    exact (dmaWriteMasked_keeps (busKeeps_flows dev s.env.isolated) ⟨h, rfl⟩ heq).1
  | advance cycles =>
    cases heq
    exact (dmaAdvance_keeps (mdecKeeps_flows dev) ⟨h, hok⟩).1
  | cpu ram isolated devices =>
    cases heq
    exact h

/-- **The pipeline loses nothing** in any run that keeps the cache connected during slices, for any
register writes, any slices and any interference with RAM in between: the words channel 1 stored are the
outputs of the commands channel 0 fed, up to what is still in the buffer. -/
theorem pipeline_lossless {s : State (Env D)}
    (h : Runs.Reached (pipeStep dev) PipeOk PipeStart s) : Lossless s.env := by
  have hflow : Flows s.env := by
    refine h.invariant (I := fun s => Flows s.env) ?_ ?_
    · rintro _ ⟨ram, isolated, devices, rfl⟩
      exact agrees_init
    · intro op s s' hs hok heq
      exact pipeStep_flows dev hs hok heq
  exact hflow.outputs_eq

end

/-! ## 4. Two runs -/

def noDevices : Devices Unit where
  gpuRead d := (0, d)
  gpuWrite d _ _ := d
  spuWrite d _ := d
  cdromReady _ := false
  cdromRead d := (0, d)
  cdromSectorWords _ := 512
  markExecutable d _ := d
  irqRaise d _ := d

/-- A decode command with one word of payload, which is one luma block. -/
def oneBlockRam (a : Nat) : Ram.Byte := [0x01, 0x00, 0x00, 0x20, 0x00, 0x00, 0x00, 0xFE].getD a 0

theorem pipeStep_write {D : Type} (dev : Devices D) (addr val mask : Word) (s : State (Env D)) :
    pipeStep dev (.write addr val mask) s = dmaWriteMasked (pipeBus dev) addr val mask s := rfl

def oneBlockReset : State (Env Unit) := reset ⟨oneBlockRam, false, Mdec.init, (), [], []⟩

def oneBlock : List Word := [0x20000001#32, 0xFE000000#32]

def isolate (s : State (Env Unit)) : State (Env Unit) :=
  { s with env := { s.env with ram := oneBlockRam, isolated := true, devices := () } }

theorem reached_bothStarted (ok : PipeOp Unit → State (Env Unit) → Prop)
    (hok : ∀ addr val mask s, ok (.write addr val mask) s) :
    ∃ s, Runs.Reached (pipeStep noDevices) ok PipeStart s ∧ s.env.isolated = false ∧
      (dmaAdvance (pipeBus noDevices) 14#32 s).env.fed = oneBlock ∧
      (dmaAdvance (pipeBus noDevices) 14#32 s).env.stored.length = 1 ∧
      (dmaAdvance (pipeBus noDevices) 14#32 (isolate s)).env.fed = oneBlock ∧
      (dmaAdvance (pipeBus noDevices) 14#32 (isolate s)).env.stored = [] ∧
      (dmaAdvance (pipeBus noDevices) 14#32 (isolate s)).env.mdec.output.length -
        (dmaAdvance (pipeBus noDevices) 14#32 (isolate s)).env.mdec.outputPos = 60 := by
  have h₀ : Runs.Reached (pipeStep noDevices) ok PipeStart oneBlockReset := .start ⟨_, _, _, rfl⟩
  have hdpcr : Reg.ofAddr 0x1F8010F0#32 = .dpcr := by decide
  have hchcr₀ : Reg.ofAddr 0x1F801088#32 = .chcr 0 := by decide
  have hchcr₁ : Reg.ofAddr 0x1F801098#32 = .chcr 1 := by decide
  have h₁ := h₀.next (hok _ 0x88#32 0xFFFFFFFF#32 _)
    ((pipeStep_write ..).trans (dmaWriteMasked_dpcr hdpcr))
  have h₂ := h₁.next (hok _ 0x01000201#32 0xFFFFFFFF#32 _)
    (((pipeStep_write ..).trans (dmaWriteMasked_chcr hchcr₀)).trans rfl)
  have h₃ := h₂.next (hok _ 0x01000200#32 0xFFFFFFFF#32 _)
    (((pipeStep_write ..).trans (dmaWriteMasked_chcr hchcr₁)).trans rfl)
  exact ⟨_, h₃, rfl, by decide +kernel, by decide +kernel, by decide +kernel, by decide +kernel,
    by decide +kernel⟩

theorem length_outputs_oneBlock : (Mdec.outputs Mdec.init.tables oneBlock).length = 64 := by
  have hlen : [0xFE000000#32].length = payloadWords 0x20000001#32 := by decide
  have hout := outputs_complete init.tables 0x20000001#32 hlen []
  exact (congrArg List.length hout).trans (by decide +kernel)

/-- The slice, with the cache connected: one word arrives in RAM. -/
theorem pipeline_lossless_oneBlock :
    ∃ s, Runs.Reached (pipeStep noDevices) PipeOk PipeStart s ∧ s.env.fed = oneBlock ∧
      s.env.stored.length = 1 ∧ Lossless s.env := by
  obtain ⟨s, hs, hiso, hfed, hstored, -⟩ := reached_bothStarted PipeOk fun _ _ _ _ => trivial
  have hslice : Runs.Reached (pipeStep noDevices) PipeOk PipeStart _ :=
    hs.next (a := .advance 14#32) hiso rfl
  exact ⟨_, hslice, hfed, hstored, pipeline_lossless noDevices hslice⟩

/-- `psx_write_word_raw` drops the store of a slice while the CPU has isolated its cache. -/
theorem isolated_slice_loses_word :
    ∃ s, Runs.Reached (pipeStep noDevices) (fun _ _ => True) PipeStart s ∧ ¬ Lossless s.env := by
  obtain ⟨s, hs, -, -, -, hfed, hstored, hleft⟩ :=
    reached_bothStarted (fun _ _ => True) fun _ _ _ _ => trivial
  have hiso : Runs.Reached (pipeStep noDevices) (fun _ _ => True) PipeStart (isolate s) :=
    hs.next (a := .cpu oneBlockRam true ()) trivial rfl
  refine ⟨_, hiso.next (a := .advance 14#32) trivial rfl, fun h => ?_⟩
  rw [Lossless, hfed, hstored] at h
  have hlen := congrArg List.length h
  rw [length_outputs_oneBlock, bytesOf, List.flatMap_nil, List.nil_append, List.length_drop, hleft]
    at hlen
  cases hlen

end PsxRecomp.Dma
