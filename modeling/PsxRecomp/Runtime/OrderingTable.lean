import PsxRecomp.Runtime.MdecPipe

/-!
# `Runtime/OrderingTable.lean` — ordering tables, from channel 6 to channel 2

Channel 6 clears an ordering table: each entry becomes a link to the entry below it, the last one the
end marker. Channel 2 in linked-list mode follows such links and sends what hangs on them to the GPU.

Both transfers are started by a store to `CHCR`. `psx_write_word_raw` drops every store while the cache
is isolated, before it decides what the store is for, so a transfer that starts finds RAM writable.
-/

set_option autoImplicit false

namespace PsxRecomp.Dma

open List State BitVec

/-! ## 1. The walk -/

section
variable {E : Type} (bus : Bus E)

/-- The payload of the node at `addr` -/
def sendPayload (addr : Word) (e : E) : E :=
  (moveWords (fun _ => true) (fun a e => bus.gpuWrite e a (bus.readWord e a)) 4#32
    ((bus.readWord e addr >>> 24) &&& 0xFF#32).toNat (nextAddr 4#32 addr) e).2.2

/-- The nodes the walker visits, at most `k` -/
def listNodes : Nat → Word → E → List Word
  | 0, _, _ => []
  | k + 1, addr, e =>
    addr :: if bus.readWord e addr &&& 0xFFFFFF#32 = 0xFFFFFF#32 then []
      else listNodes k (bus.readWord e addr &&& 0xFFFFFF#32 &&& 0x1FFFFC#32) (sendPayload bus addr e)

/-- One node: its header and its payload are read, and the payload is sent. -/
def visit (r : Nat × E) (addr : Word) : Nat × E :=
  (r.1 + 1 + ((bus.readWord r.2 addr >>> 24) &&& 0xFF#32).toNat, sendPayload bus addr r.2)

variable {bus}

/-- What the walker does is to visit the nodes whose headers it reads, one by one. -/
theorem gpuLinkedList_visits (k : Nat) (addr : Word) (words : Nat) (e : E) :
    (gpuLinkedList bus k addr words e).2 = (listNodes bus k addr e).foldl (visit bus) (words, e) := by
  induction k generalizing addr words e with
  | zero => rfl
  | succ k ih =>
    rw [listNodes, foldl_cons, gpuLinkedList]
    by_cases hend : bus.readWord e addr &&& 0xFFFFFF#32 = 0xFFFFFF#32
    · rw [if_pos hend, if_pos hend]
      rfl
    · rw [if_neg hend, if_neg hend, ih]
      rfl

/-! ## 2. The table -/

/-- The entries of a table of `n` words with its top at `addr`, and what is stored in them -/
def tableEntries : Nat → Word → List (Word × Word)
  | 0, _ => []
  | n + 1, addr =>
    (addr, if n = 0 then 0x00FFFFFF#32 else (addr - 4#32) &&& 0x00FFFFFF#32) ::
      tableEntries n (nextAddr (-4#32) addr)

theorem clearTable_eq (n : Nat) (addr : Word) (e : E) :
    clearTable bus n addr e =
      (tableEntries n addr).foldl (fun e entry => bus.writeWord e 6 entry.1 entry.2) e := by
  induction n generalizing addr e with
  | zero => rfl
  | succ n ih => rw [clearTable, ih, tableEntries, foldl_cons]

theorem map_fst_tableEntries (n : Nat) (addr : Word) :
    (tableEntries n addr).map Prod.fst = addresses (-4#32) n addr := by
  induction n generalizing addr with
  | zero => rfl
  | succ n ih => rw [tableEntries, map_cons, ih, addresses]

theorem tableLink {addr : Word} (h : InRam addr) :
    (((addr - 4#32) &&& 0x00FFFFFF#32) >>> 24) &&& 0xFF#32 = 0#32 ∧
      (addr - 4#32) &&& 0x00FFFFFF#32 &&& 0xFFFFFF#32 ≠ 0xFFFFFF#32 ∧
      (addr - 4#32) &&& 0x00FFFFFF#32 &&& 0xFFFFFF#32 &&& 0x1FFFFC#32 = nextAddr (-4#32) addr := by
  have haligned := h.toNat.2
  refine ⟨?_, fun heq => ?_, ?_⟩
  · rw [ushiftRight_and_distrib, BitVec.and_assoc]
    exact and_zero
  · -- the marker is odd, and a link is a word address
    have hbit := congrArg (fun x => x.getLsbD 0) heq
    simp [getLsbD, Nat.testBit_zero] at hbit
    omega
  · rw [nextAddr, sub_eq_add_neg, BitVec.and_assoc, BitVec.and_assoc]
    rfl

variable (bus) in
/-- With the entries of a table in memory the walk visits them in order, sends nothing and ends at the
marker. -/
theorem walk_table {n k : Nat} {addr : Word} {e : E} (haddr : InRam addr)
    (hmem : ∀ entry ∈ tableEntries (n + 1) addr, bus.readWord e entry.1 = entry.2) (hk : n + 1 < k)
    (words : Nat) :
    listNodes bus k addr e = addresses (-4#32) (n + 1) addr ∧
      gpuLinkedList bus k addr words e = (0x00FFFFFF#32, words + (n + 1), e) := by
  obtain ⟨k, rfl⟩ : ∃ j, k = j + 1 := ⟨k - 1, by omega⟩
  induction n generalizing k addr words with
  | zero =>
    have hhead := hmem _ (mem_cons_self ..)
    have hk0 : k ≠ 0 := by omega
    dsimp only at hhead
    rw [if_pos rfl] at hhead
    constructor
    · rw [listNodes, hhead, if_pos (by decide)]
      rfl
    · rw [gpuLinkedList, hhead, if_pos (by decide), if_neg hk0]
      rfl
  | succ n ih =>
    obtain ⟨hnone, hlink, hnext⟩ := tableLink haddr
    have hhead := hmem _ (mem_cons_self ..)
    rw [if_neg (Nat.succ_ne_zero n)] at hhead
    obtain ⟨j, rfl⟩ : ∃ j, k = j + 1 := ⟨k - 1, by omega⟩
    obtain ⟨hnodes, hwalk⟩ := ih (inRam_nextAddr (-4#32) addr)
      (fun entry hentry => hmem entry (mem_cons_of_mem _ hentry)) (words + 1) j (by omega)
    have hstays : sendPayload bus addr e = e := by
      rw [sendPayload, hhead, hnone]
      rfl
    constructor
    · rw [listNodes, hhead, if_neg hlink, hnext, hstays, hnodes]
      rfl
    · rw [gpuLinkedList, hhead, if_neg hlink, hnext, hnone]
      exact hwalk.trans (by rw [Nat.add_assoc, Nat.add_comm 1])

end

/-! ## 3. In RAM -/

section
variable {D : Type} {dev : Devices D}

def atPhys (entries : List (Word × Word)) : List (Nat × Word) :=
  entries.map fun entry => (entry.1.toNat, entry.2)

theorem store_entries {entries : List (Word × Word)} {e : Env D} (hiso : e.isolated = false)
    (hram : ∀ entry ∈ entries, InRam entry.1) :
    entries.foldl (fun e entry => (pipeBus dev).writeWord e 6 entry.1 entry.2) e =
      { e with ram := Ram.writeWords e.ram (atPhys entries) } := by
  induction entries generalizing e with
  | nil => rfl
  | cons head entries ih =>
    obtain ⟨hhead, hrest⟩ := forall_mem_cons.mp hram
    have hstore : (pipeBus dev).writeWord e 6 head.1 head.2 =
        { e with ram := Ram.write e.ram head.1.toNat (Ram.Width.word.bytes head.2) } := by
      change e.store 6 head.1 head.2 = _
      rw [Env.store, hiso, storeTarget_inRam hhead]
      rfl
    rw [foldl_cons, hstore]
    exact ih (by exact hiso) hrest

variable {n : Nat} {addr : Word}

theorem inRam_entry (h : InRam addr) {entry : Word × Word} (hmem : entry ∈ tableEntries n addr) :
    InRam entry.1 := by
  have hfst : entry.1 ∈ addresses (-4#32) n addr := by
    rw [← map_fst_tableEntries]
    exact mem_map_of_mem hmem
  obtain ⟨i, -, heq⟩ := mem_addresses.mp hfst
  rw [← heq]
  exact inRam_addrAfter h i

theorem readWord_table (haddr : InRam addr) (hn : n ≤ 0x80000) {e : Env D}
    (hram : ∃ ram, e.ram = Ram.writeWords ram (atPhys (tableEntries n addr))) :
    ∀ entry ∈ tableEntries n addr, (pipeBus dev).readWord e entry.1 = entry.2 := by
  obtain ⟨ram, hram⟩ := hram
  intro entry hmem
  have hentry := inRam_entry haddr hmem
  change Words.leWord e.ram (Ram.physAddr entry.1) = entry.2
  rw [physAddr_inRam hentry, hram]
  refine Ram.leWord_writeWords 0 ?_ ?_ (mem_map.mpr ⟨entry, hmem, rfl⟩)
  · intro p hp
    obtain ⟨other, hother, rfl⟩ := mem_map.mp hp
    exact (inRam_entry haddr hother).toNat.2
  · have hnodup : (addresses (-4#32) n addr).Nodup := nodup_addresses (.inr (by decide)) haddr hn
    have hinj : Function.Injective (BitVec.toNat (w := 32)) := fun _ _ => eq_of_toNat_eq
    rw [← map_fst_tableEntries] at hnodup
    rw [atPhys, map_map]
    have := hnodup.map hinj
    rwa [map_map] at this

end

/-! ## 4. The round trip -/

section
variable {D : Type} (dev : Devices D)

/-- `psx_write_word_raw`, for a register of the controller -/
def guestWrite (addr val : Word) (s : State (Env D)) : Option (State (Env D)) :=
  if s.env.isolated then some s else dmaWriteMasked (pipeBus dev) addr val 0xFFFFFFFF#32 s

def tableOf (c : Channel) : List (Nat × Word) := atPhys (tableEntries (numEntries c) c.startAddr)

/-- From `s`, channel 6 has run (`s₁`), and then channel 2 from the same address (`s₂` to `s₃`). -/
structure RoundTrip (s s₁ s₂ s₃ : State (Env D)) : Prop where
  /-- Channel 6 has stored its entries, and no other word has changed. -/
  table : s₁.env.ram = Ram.writeWords s.env.ram (tableOf (s.channels 6))
  outside : ∀ x, (∀ a ∈ addresses (-4#32) (numEntries (s.channels 6)) (s.channels 6).startAddr,
    ¬ (a.toNat ≤ x ∧ x < a.toNat + 4)) → s₁.env.ram x = s.env.ram x
  /-- Channel 2 visits the entries, from the top down. -/
  nodes : listNodes (pipeBus dev) gpuMaxNodes (s₂.channels 2).startAddr s₂.env =
    (tableEntries (numEntries (s.channels 6)) (s.channels 6).startAddr).map Prod.fst
  descending : listNodes (pipeBus dev) gpuMaxNodes (s₂.channels 2).startAddr s₂.env =
    addresses (-4#32) (numEntries (s.channels 6)) (s.channels 6).startAddr
  once : (listNodes (pipeBus dev) gpuMaxNodes (s₂.channels 2).startAddr s₂.env).Nodup
  /-- What it has read and done is one visit of each. -/
  visits : ((s₃.delayed 2).totalWords, s₃.env) =
    (listNodes (pipeBus dev) gpuMaxNodes (s₂.channels 2).startAddr s₂.env).foldl (visit (pipeBus dev))
      (0, s₂.env)
  /-- It has read one word for each of them, and neither the GPU nor anything else has seen one. -/
  words : (s₃.delayed 2).totalWords = numEntries (s.channels 6)
  nothingSent : s₃.env = s₂.env
  /-- It has stopped at the marker, before the cap. -/
  marker : (s₃.channels 2).madr = 0x00FFFFFF#32
  belowCap : numEntries (s.channels 6) < gpuMaxNodes

variable {dev}

theorem completeTransfer_env (ch : Fin 7) (s : State (Env D)) :
    (completeTransfer (pipeBus dev) ch s).env.ram = s.env.ram ∧
      (completeTransfer (pipeBus dev) ch s).env.isolated = s.env.isolated := by
  unfold completeTransfer raiseOnMasterEdge
  dsimp only
  split_ifs <;> exact ⟨rfl, rfl⟩

variable (dev) in
theorem execute_otc {s : State (Env D)} (hiso : s.env.isolated = false) :
    ∃ s₁, execute (pipeBus dev) 6 s = some s₁ ∧ Keeps 6 s s₁ ∧ s₁.env.isolated = false ∧
      s₁.env.ram = Ram.writeWords s.env.ram (tableOf (s.channels 6)) := by
  have hclear : clearTable (pipeBus dev) (numEntries (s.channels 6)) (s.channels 6).startAddr s.env =
      { s.env with ram := Ram.writeWords s.env.ram (tableOf (s.channels 6)) } := by
    rw [clearTable_eq]
    exact store_entries hiso fun entry hmem => inRam_entry (inRam_startAddr _) hmem
  refine ⟨_, rfl, ?_, ?_, ?_⟩
  · have hmoved : ∀ e : Env D, Keeps 6 s { s with env := e } := fun _ => .of_eq 6 rfl rfl rfl rfl
    exact (hmoved _).trans (keeps_complete 6 _)
  · rw [executeCh6Otc, (completeTransfer_env 6 _).2]
    exact (congrArg Env.isolated hclear).trans hiso
  · rw [executeCh6Otc, (completeTransfer_env 6 _).1]
    exact congrArg Env.ram hclear

variable (dev) in
theorem execute_list {s : State (Env D)} {n : Nat} (hdir : (s.channels 2).direction = true)
    (hsync : (s.channels 2).syncMode = 2#32) (hn : n + 1 < gpuMaxNodes)
    (hram : ∃ ram, s.env.ram =
      Ram.writeWords ram (atPhys (tableEntries (n + 1) (s.channels 2).startAddr))) :
    listNodes (pipeBus dev) gpuMaxNodes (s.channels 2).startAddr s.env =
        addresses (-4#32) (n + 1) (s.channels 2).startAddr ∧
      ∃ s₃, execute (pipeBus dev) 2 s = some s₃ ∧ s₃.env = s.env ∧
        (s₃.delayed 2).totalWords = n + 1 ∧ (s₃.channels 2).madr = 0x00FFFFFF#32 ∧
        (n + 1, s.env) = (listNodes (pipeBus dev) gpuMaxNodes (s.channels 2).startAddr s.env).foldl
          (visit (pipeBus dev)) (0, s.env) := by
  obtain ⟨hnodes, hwalk⟩ := walk_table (pipeBus dev) (inRam_startAddr (s.channels 2))
    (readWord_table (inRam_startAddr _) (by simp only [gpuMaxNodes] at hn; omega) hram) hn 0
  have hexec : executeCh2Gpu (pipeBus dev) s = (n + 1, s.setMadr 2 0x00FFFFFF#32) := by
    unfold executeCh2Gpu
    simp only [hdir, hsync, hwalk, Bool.not_true, Bool.false_eq_true, if_false, if_true, Nat.zero_add]
    rfl
  refine ⟨hnodes, _, rfl, ?_⟩
  rw [hexec, scheduleDelayedComplete, if_neg (by omega)]
  refine ⟨rfl, ?_, ?_, ?_⟩
  · simp [setDelayed]
  · simp [setDelayed, setMadr, setChannel]
  · rw [← gpuLinkedList_visits, hwalk, Nat.zero_add]

theorem guestWrite_eq {s : State (Env D)} (hiso : s.env.isolated = false) (addr val : Word) :
    guestWrite dev addr val s = dmaWriteMasked (pipeBus dev) addr val 0xFFFFFFFF#32 s :=
  if_neg (by simp [hiso])

/-- **A cleared table is walked once, from its top to its marker.** For every RAM, every `MADR` and `BCR` of
channel 6 and every `CHCR` that starts it, with the next stores starting a list at the same address. -/
theorem ordering_table_round_trip (s : State (Env D)) (chcr6 chcr2 : Word)
    (hiso : s.env.isolated = false)
    (hen6 : s.enabled 6 = true) (hstart6 : chcr6.getLsbD 24 = true)
    (hlen : lengthOk (pipeBus dev) ((s.setChcr 6 chcr6).kicked 6) 6 = true)
    (hen2 : s.enabled 2 = true) (hstart2 : chcr2.getLsbD 24 = true) (hdir : chcr2.getLsbD 0 = true)
    (hlist : (chcr2 >>> 9) &&& 3#32 = 2#32) :
    ∃ s₁ s₂ s₃, guestWrite dev 0x1F8010E8#32 chcr6 s = some s₁ ∧
      guestWrite dev 0x1F8010A0#32 (s.channels 6).madr s₁ = some s₂ ∧
      guestWrite dev 0x1F8010A8#32 chcr2 s₂ = some s₃ ∧ RoundTrip dev s s₁ s₂ s₃ := by
  -- the executor of channel 6 sees the registers of `s`, but for the start bits
  set k := (s.setChcr 6 chcr6).kicked 6 with hk
  obtain ⟨s₁, hexec₁, hkeeps, hiso₁, hram₁⟩ := execute_otc dev (s := k) hiso
  set s₂ := s₁.setMadr 2 (s.channels 6).madr with hs₂
  set k₂ := (s₂.setChcr 2 chcr2).kicked 2 with hk₂
  have hch : k₂.channels 2 = Channel.kick ⟨(s.channels 6).madr, (s₁.channels 2).bcr, chcr2⟩ := by
    rw [hk₂, kicked_self, setChcr_self]
    simp [hs₂, setMadr, setChannel]
  have hiso₂ : s₂.env.isolated = false := hiso₁
  have hen₂ : s₂.enabled 2 = true := (hkeeps.enabled_eq 2).trans hen2
  have hsync : (k₂.channels 2).syncMode = 2#32 := by
    rw [hch, Channel.syncMode_kick]
    exact hlist
  have hstart : (k₂.channels 2).startAddr = (s.channels 6).startAddr := by
    rfl
  -- at least one entry, and far fewer than the cap
  obtain ⟨hpos, hmax⟩ := numEntries_bounds (s.channels 6)
  obtain ⟨n, hn, hcap⟩ : ∃ n, numEntries (s.channels 6) = n + 1 ∧ n + 1 < gpuMaxNodes :=
    ⟨numEntries (s.channels 6) - 1, by omega, by simp only [gpuMaxNodes]; omega⟩
  have hentries : tableOf (s.channels 6) =
      atPhys (tableEntries (n + 1) (k₂.channels 2).startAddr) := by
    rw [tableOf, hn, hstart]
  obtain ⟨hnodes, s₃, hexec₃, henv₃, hwords₃, hmadr₃, hvisits⟩ := execute_list dev (s := k₂)
    (by rw [hch, Channel.direction_kick]; exact hdir) hsync hcap ⟨s.env.ram, by rw [← hentries]; exact hram₁⟩
  have hstart₂ : (s₂.channels 2).startAddr = (k₂.channels 2).startAddr := by
    rw [hstart]
    simp [hs₂, setMadr, setChannel, Channel.startAddr]
  have hwalk : listNodes (pipeBus dev) gpuMaxNodes (s₂.channels 2).startAddr s₂.env =
      addresses (-4#32) (numEntries (s.channels 6)) (s.channels 6).startAddr := by
    rw [hstart₂, hn, ← hstart]
    exact hnodes
  refine ⟨s₁, s₂, s₃, ?_, ?_, ?_, ?_⟩
  · rw [guestWrite_eq hiso, dmaWriteMasked_start (by decide) hstart6 hen6 hlen]
    exact hexec₁
  · rw [guestWrite_eq hiso₁]
    exact dmaWriteMasked_madr (by decide)
  · have hlen₂ : lengthOk (pipeBus dev) k₂ 2 = true := by simp [lengthOk, hsync]
    rw [guestWrite_eq hiso₂, dmaWriteMasked_start (by decide) hstart2 hen₂ hlen₂]
    exact hexec₃
  · exact {
      table := hram₁
      outside := by
        intro x hx
        rw [hram₁]
        refine Ram.writeWords_of_not_mem fun p hp => ?_
        obtain ⟨entry, hentry, rfl⟩ := mem_map.mp hp
        refine hx entry.1 ?_
        rw [← map_fst_tableEntries]
        exact mem_map_of_mem hentry
      nodes := by rw [hwalk, map_fst_tableEntries]
      descending := hwalk
      once := by
        rw [hwalk, hn]
        refine nodup_addresses (.inr (by decide)) (inRam_startAddr _) ?_
        omega
      visits := by
        rw [hwords₃, henv₃, hstart₂]
        exact hvisits
      words := hwords₃.trans hn.symm
      nothingSent := henv₃
      marker := hmadr₃
      belowCap := by
        rw [hn]
        exact hcap }

end

/-- Channels 2 and 6 are enabled, and a table of four entries is to wrap through address zero. -/
def wrappingTable : State (Env Unit) :=
  { reset ⟨fun _ => 0xFF#8, false, Mdec.init, (), [], []⟩ with
    dpcr := 0x08000800#32, channels := fun ch => if ch = 6 then ⟨0x80000004#32, 4#32, 0#32⟩ else {} }

theorem ordering_table_round_trip_wrapping :
    ∃ s₁ s₂ s₃, guestWrite noDevices 0x1F8010E8#32 0x11000002#32 wrappingTable = some s₁ ∧
      guestWrite noDevices 0x1F8010A0#32 (wrappingTable.channels 6).madr s₁ = some s₂ ∧
      guestWrite noDevices 0x1F8010A8#32 0x01000401#32 s₂ = some s₃ ∧
      RoundTrip noDevices wrappingTable s₁ s₂ s₃ :=
  ordering_table_round_trip wrappingTable 0x11000002#32 0x01000401#32 rfl (by decide) (by decide)
    (by decide) (by decide) (by decide) (by decide) (by decide)

end PsxRecomp.Dma
