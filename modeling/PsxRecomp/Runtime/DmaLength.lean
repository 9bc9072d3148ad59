import PsxRecomp.Runtime.DmaWords

/-!
# `Runtime/DmaLength.lean` — how many words a transfer moves

`transfer_word_count` is the length a transfer is validated with. Most channels derive the length a
second time when they move the words. `LengthAgrees` says that a transfer that runs to its end has moved
that many words, at consecutive addresses from `MADR` on, and has left `MADR` behind the last of them;
other channels may run at the same time. What moved is read off the calls the controller makes
(`Happens`), with the memory and devices left open.
-/

set_option autoImplicit false

namespace PsxRecomp.Dma

open List

/-! ## 1. Events -/

inductive Event where
  | word (ch : Fin 7) (addr : Word)
  | irq (detail : Word)

/-- The address, if it is a word of channel `ch` -/
def Event.ofChannel (ch : Fin 7) : Event → Option Word
  | .word c a => if c = ch then some a else none
  | .irq _ => none

/-- The words of channel `ch` among the events -/
def moved (ch : Fin 7) (evs : List Event) : List Word := evs.filterMap (Event.ofChannel ch)

section
variable {E : Type} (bus : Bus E)

inductive Happens : Event → E → E → Prop
  | mdecIn (a : Word) (e : E) : Happens (.word 0 a) e (bus.mdecWriteWord e (bus.readWord e a))
  | mdecOut (a : Word) (e : E) : Happens (.word 1 a) e
      (bus.writeWord (bus.mdecReadWord e).2 1 a (bus.mdecReadWord e).1)
  | gpuOut (a : Word) (e : E) : Happens (.word 2 a) e (bus.gpuWrite e a (bus.readWord e a))
  | gpuIn (a : Word) (e : E) : Happens (.word 2 a) e (bus.writeWord (bus.gpuRead e).2 2 a (bus.gpuRead e).1)
  | cdrom (a : Word) (e : E) : Happens (.word 3 a) e
      (bus.markExecutable (bus.writeWord (bus.cdromRead e).2 3 a (bus.cdromRead e).1) a)
  | spuOut (a : Word) (e : E) : Happens (.word 4 a) e (bus.spuWrite e (bus.readWord e a))
  | spuIn (a : Word) (e : E) : Happens (.word 4 a) e (bus.writeWord e 4 a 0#32)
  | otc (a v : Word) (e : E) : Happens (.word 6 a) e (bus.writeWord e 6 a v)
  | irq (v : Word) (e : E) : Happens (.irq v) e (bus.irqRaise e v)

inductive Trace : List Event → E → E → Prop
  | nil (e : E) : Trace [] e e
  | cons {ev : Event} {evs : List Event} {e e' e'' : E} :
    Happens bus ev e e' → Trace evs e' e'' → Trace (ev :: evs) e e''

def slices (cs : List Word) (s : State E) : State E := cs.foldl (fun s c => dmaAdvance bus c s) s

end

section
variable {E : Type} {bus : Bus E}

@[simp] theorem moved_append (ch : Fin 7) (evs evs' : List Event) :
    moved ch (evs ++ evs') = moved ch evs ++ moved ch evs' := filterMap_append

theorem moved_self (ch : Fin 7) (l : List Word) : moved ch (l.map (Event.word ch)) = l := by
  induction l with
  | nil => rfl
  | cons a l ih => simpa [moved, Event.ofChannel] using ih

theorem moved_other {ch c : Fin 7} (h : c ≠ ch) (l : List Word) : moved c (l.map (Event.word ch)) = [] := by
  simp [moved, Event.ofChannel, Ne.symm h]

theorem Trace.append {evs evs' : List Event} {e e' e'' : E} (h : Trace bus evs e e')
    (h' : Trace bus evs' e' e'') : Trace bus (evs ++ evs') e e'' := by
  induction h with
  | nil e => exact h'
  | cons hev _ ih => exact .cons hev (ih h')

theorem Trace.extend {ch : Fin 7} {l : List Word} {e e' e'' : E}
    (h : ∃ evs, Trace bus evs e e' ∧ moved ch evs = l)
    (h' : ∃ evs, Trace bus evs e' e'' ∧ moved ch evs = []) :
    ∃ evs, Trace bus evs e e'' ∧ moved ch evs = l := by
  obtain ⟨evs, ht, rfl⟩ := h
  obtain ⟨evs', ht', hm'⟩ := h'
  exact ⟨evs ++ evs', ht.append ht', by rw [moved_append, hm', append_nil]⟩

theorem Trace.words {ch : Fin 7} {move : Word → E → E}
    (h : ∀ a e, Happens bus (.word ch a) e (move a e)) (l : List Word) (e : E) :
    Trace bus (l.map (Event.word ch)) e (l.foldl (fun e a => move a e) e) := by
  induction l generalizing e with
  | nil => exact .nil e
  | cons a l ih => exact .cons (h a e) (ih _)

/-! ## 2. One channel at a time -/

/-- The step works on channel `ch`, and the words it moves are words of this channel. -/
structure Local (bus : Bus E) (ch : Fin 7) (s s' : State E) : Prop extends Keeps ch s s' where
  trace : ∃ evs, Trace bus evs s.env s'.env ∧ ∀ c ≠ ch, moved c evs = []

theorem Local.refl (ch : Fin 7) (s : State E) : Local bus ch s s :=
  ⟨.refl ch s, [], .nil _, fun _ _ => rfl⟩

theorem Local.none {ch d : Fin 7} {s s' : State E} (h : Local bus d s s') (hne : ch ≠ d) :
    ∃ evs, Trace bus evs s.env s'.env ∧ moved ch evs = [] :=
  h.trace.imp fun _ h => ⟨h.1, h.2 ch hne⟩

section
variable {ch : Fin 7} {s s' : State E}

variable (bus) in
theorem trace_complete (ch : Fin 7) (s : State E) :
    ∃ evs, Trace bus evs s.env (completeTransfer bus ch s).env ∧ ∀ c, moved c evs = [] := by
  unfold completeTransfer raiseOnMasterEdge
  dsimp only
  split_ifs
  · exact ⟨[.irq _], .cons (.irq _ _) (.nil _), fun _ => rfl⟩
  · exact ⟨[], .nil _, fun _ => rfl⟩
  · exact ⟨[], .nil _, fun _ => rfl⟩

theorem Local.complete (h : Keeps ch s s') (henv : s'.env = s.env) :
    Local bus ch s (completeTransfer bus ch s') := by
  obtain ⟨evs, ht, hm⟩ := trace_complete bus ch s'
  rw [henv] at ht
  exact ⟨h.trans (keeps_complete ch s'), evs, ht, fun c _ => hm c⟩

theorem Local.finish (ch : Fin 7) (s : State E) :
    Local bus ch s (completeTransfer bus ch (cancelAsyncTransfer ch s)) :=
  .complete (keeps_cancel ch s) rfl

theorem Local.advance {ready : E → Bool} {move : Word → E → E}
    (hmove : ∀ a e, Happens bus (.word ch a) e (move a e)) (cyclesPerWord cycles : Nat) (s : State E) :
    Local bus ch s (advanceAsync bus ready move cyclesPerWord cycles ch s) := by
  refine ⟨(stage_async cyclesPerWord cycles ch s).toKeeps, ?_⟩
  unfold advanceAsync
  extract_lets a accum r counted s₁ s₂
  have hwords : Trace bus ((addresses (s.channels ch).addrStep r.1 (s.channels ch).startAddr).map
      (Event.word ch)) s.env r.2.2 := by
    have hsnd : r.2 = _ := moveWords_snd (s.channels ch).addrStep
      (min a.remainingWords (accum / cyclesPerWord)) (s.channels ch).startAddr s.env
    rw [show r.2.2 = _ from congrArg Prod.snd hsnd]
    exact .words hmove _ _
  split_ifs
  · exact ⟨_, hwords, fun c hc => moved_other hc _⟩
  · obtain ⟨evs, ht, hm⟩ := trace_complete bus ch (cancelAsyncTransfer ch s₂)
    refine ⟨_, hwords.append ht, fun c hc => ?_⟩
    rw [moved_append, moved_other hc, hm, nil_append]
  · exact ⟨_, hwords, fun c hc => moved_other hc _⟩

variable (bus) in
theorem local_mdec (ch : Fin 7) (hch : ch = 0 ∨ ch = 1) (cycles : Nat) (s : State E) :
    Local bus ch s (advanceMdecChannel bus ch cycles s) := by
  unfold advanceMdecChannel
  split_ifs with _ _ _ h0
  · exact .refl ch s
  · exact .refl ch s
  · exact .finish ch s
  · exact .refl ch s
  · subst h0
    exact .advance .mdecIn _ _ s
  · exact .refl ch s
  · obtain rfl := hch.resolve_left h0
    exact .advance .mdecOut _ _ s

variable (bus) in
theorem local_cdrom (cycles : Nat) (s : State E) : Local bus 3 s (advanceCdrom bus cycles s) := by
  unfold advanceCdrom
  split_ifs
  · exact .refl 3 s
  · exact .refl 3 s
  · exact .advance .cdrom _ _ s

variable (bus) in
theorem local_delayed (cycles : Nat) (ch : Fin 7) (s : State E) :
    Local bus ch s (advanceDelayedComplete bus cycles ch s) := by
  unfold advanceDelayedComplete
  split_ifs
  · exact .refl ch s
  · exact ⟨.setDelayed ch s _, [], .nil _, fun _ _ => rfl⟩
  · exact .complete (.setDelayed ch s {}) rfl

end

section
variable {I : State E → Prop} {s : State E}

theorem StageInv.slices (hI : StageInv bus I) (h : I s) (cs : List Word) : I (slices bus cs s) := by
  induction cs generalizing s with
  | nil => exact h
  | cons cycles cs ih => exact ih (hI.advance h cycles)

end

/-! ## 3. A transfer under way -/

/-- The transfer of `n` words that the registers `c` of channel `ch` started in `e₀` has still words to
move. -/
structure Running (bus : Bus E) (ch : Fin 7) (c : Channel) (n : Nat) (e₀ : E) (s : State E) : Prop where
  words : ∃ evs, Trace bus evs e₀ s.env ∧
    moved ch evs = addresses c.addrStep (n - (s.async ch).remainingWords) c.startAddr
  active : (s.async ch).active = true
  pos : 0 < (s.async ch).remainingWords
  left : (s.async ch).remainingWords ≤ n
  chcr : (s.channels ch).chcr = c.kick.chcr
  next : (s.channels ch).startAddr = addrAfter c.addrStep (n - (s.async ch).remainingWords) c.startAddr
  enabled : s.enabled ch = true
  timer : (s.delayed ch).active = false

structure Settled (bus : Bus E) (ch : Fin 7) (c : Channel) (n : Nat) (e₀ : E) (s : State E) : Prop where
  words : ∃ evs, Trace bus evs e₀ s.env ∧ moved ch evs = addresses c.addrStep n c.startAddr
  idle : (s.async ch).active = false
  madr : n ≠ 0 → (s.channels ch).madr = addrAfter c.addrStep n c.startAddr

section
variable {ch d : Fin 7} {c : Channel} {n : Nat} {e₀ : E} {s s' : State E}

theorem Running.busy (h : Running bus ch c n e₀ s) (hb : c.busy = true) : (s.channels ch).busy = true := by
  rw [Channel.busy, h.chcr]
  exact c.busy_kick.trans hb

theorem Running.direction (h : Running bus ch c n e₀ s) : (s.channels ch).direction = c.direction := by
  rw [Channel.direction, h.chcr]
  exact c.direction_kick

theorem Running.addrStep (h : Running bus ch c n e₀ s) : (s.channels ch).addrStep = c.addrStep := by
  rw [Channel.addrStep, h.chcr]
  exact c.addrStep_kick

theorem Running.local (h : Running bus ch c n e₀ s) (hl : Local bus d s s') (hne : ch ≠ d) :
    Running bus ch c n e₀ s' := by
  have ha := hl.async ch hne
  have hc := hl.channels ch hne
  refine ⟨?_, ha ▸ h.active, ha ▸ h.pos, ha ▸ h.left, hc ▸ h.chcr, ?_, (hl.enabled_eq ch).trans h.enabled,
    hl.delayed ch hne ▸ h.timer⟩
  · rw [ha]
    exact Trace.extend h.words (hl.none hne)
  · rw [hc, ha]
    exact h.next

theorem Settled.local (h : Settled bus ch c n e₀ s) (hl : Local bus d s s') (hne : ch ≠ d) :
    Settled bus ch c n e₀ s' :=
  ⟨Trace.extend h.words (hl.none hne), hl.async ch hne ▸ h.idle, hl.channels ch hne ▸ h.madr⟩

theorem Settled.complete (h : Settled bus ch c n e₀ s) : Settled bus ch c n e₀ (completeTransfer bus ch s) := by
  refine ⟨Trace.extend h.words ((trace_complete bus ch s).imp fun _ h => ⟨h.1, h.2 ch⟩), ?_, ?_⟩
  · rw [(completeTransfer_kept ..).1]
    exact h.idle
  · rw [completeTransfer_channels, Function.update_self]
    exact h.madr

theorem Settled.delayed (h : Settled bus ch c n e₀ s) (cycles : Nat) :
    Settled bus ch c n e₀ (advanceDelayedComplete bus cycles ch s) := by
  unfold advanceDelayedComplete
  split_ifs
  · exact h
  · exact ⟨h.words, h.idle, h.madr⟩
  · exact Settled.complete ⟨h.words, h.idle, h.madr⟩

/-- A slice moves the words that come next, and the last of them settles the transfer. -/
theorem Running.advance {ready : E → Bool} {move : Word → E → E} (h : Running bus ch c n e₀ s)
    (hready : ∀ e, ready e = true) (hmove : ∀ a e, Happens bus (.word ch a) e (move a e))
    (cyclesPerWord cycles : Nat) :
    Running bus ch c n e₀ (advanceAsync bus ready move cyclesPerWord cycles ch s) ∨
      Settled bus ch c n e₀ (advanceAsync bus ready move cyclesPerWord cycles ch s) := by
  obtain ⟨evs, ht, hm⟩ := h.words
  unfold advanceAsync
  extract_lets a accum r counted s₁ s₂
  have hpos : 0 < a.remainingWords := h.pos
  have hleft : a.remainingWords ≤ n := h.left
  set k := min a.remainingWords (accum / cyclesPerWord) with hk
  have hr : r = (k, addrAfter c.addrStep k (s.channels ch).startAddr,
      (addresses c.addrStep k (s.channels ch).startAddr).foldl (fun e a => move a e) s.env) := by
    rw [← h.addrStep]
    exact moveWords_eq hready ..
  have hactive : a.active = true := h.active
  have hnext₀ : (s.channels ch).startAddr = addrAfter c.addrStep (n - a.remainingWords) c.startAddr := h.next
  have hm : moved ch evs = addresses c.addrStep (n - a.remainingWords) c.startAddr := hm
  clear_value k r a
  -- the words of this slice follow those of the slices before
  have hsplit : n - a.remainingWords + k = n - (a.remainingWords - k) := by omega
  have hwords : Trace bus (evs ++ (addresses c.addrStep k (s.channels ch).startAddr).map (Event.word ch))
      e₀ r.2.2 := by
    rw [hr]
    exact ht.append (.words hmove _ _)
  have hmoved : moved ch (evs ++ (addresses c.addrStep k (s.channels ch).startAddr).map (Event.word ch)) =
      addresses c.addrStep (n - (a.remainingWords - k)) c.startAddr := by
    rw [moved_append, hm, moved_self, hnext₀, ← addresses_append, hsplit]
  have hnext : r.2.1 = addrAfter c.addrStep (n - (a.remainingWords - k)) c.startAddr := by
    rw [hr, hnext₀, ← addrAfter_add, hsplit]
  have hk1 : r.1 = k := by rw [hr]
  have hchcr : (s₂.channels ch).chcr = c.kick.chcr := by
    rw [← h.chcr]
    simp [s₂, s₁, counted, State.setAsync, State.setMadr, State.setChannel]
  have hmadr : (s₂.channels ch).madr = r.2.1 := by
    simp [s₂, s₁, counted, State.setAsync, State.setMadr, State.setChannel]
  have hleft₂ : (s₂.async ch).remainingWords = a.remainingWords - k := by
    simp [s₂, State.setAsync, hk1]
  rw [hk1]
  split_ifs with h0 hend
  · -- the slices so far do not pay for another word
    have hsame : (s₁.async ch).remainingWords = a.remainingWords - k := by
      simp [s₁, counted, State.setAsync, h0]
    refine .inl ⟨⟨_, hwords, ?_⟩, ?_, ?_, ?_, h.chcr, ?_, h.enabled, h.timer⟩
    · rw [hmoved, hsame]
    · simpa [s₁, counted, State.setAsync] using hactive
    · omega
    · omega
    · rw [hsame, ← hsplit, h0, Nat.add_zero]
      exact hnext₀
  · refine .inr (Settled.complete ⟨⟨_, hwords, ?_⟩, ?_, fun _ => ?_⟩)
    · rw [hmoved, hend, Nat.sub_zero]
    · simp [cancelAsyncTransfer, State.setAsync, State.setDelayed]
    · exact hmadr.trans (by rw [hnext, hend, Nat.sub_zero])
  · refine .inl ⟨⟨_, hwords, ?_⟩, ?_, ?_, ?_, hchcr, ?_, h.enabled, h.timer⟩
    · rw [hmoved, hleft₂]
    · simpa [s₂, State.setAsync] using hactive
    · omega
    · omega
    · rw [hleft₂, ← hnext, Channel.startAddr, hmadr, hnext]
      exact inRam_addrAfter (inRam_startAddr c) _

/-- Started by `c` in `e₀`, and not yet interfered with -/
def Underway (bus : Bus E) (ch : Fin 7) (c : Channel) (n : Nat) (e₀ : E) (s : State E) : Prop :=
  Running bus ch c n e₀ s ∨ Settled bus ch c n e₀ s

theorem Underway.local (h : Underway bus ch c n e₀ s) (hl : Local bus d s s') (hne : ch ≠ d) :
    Underway bus ch c n e₀ s' :=
  h.imp (·.local hl hne) (·.local hl hne)

/-- The asynchronous channels run in one direction only. -/
structure Forward (ch : Fin 7) (c : Channel) : Prop where
  busy : c.busy = true
  mdecIn : ch = 0 → c.direction = true
  mdecOut : ch = 1 → c.direction = false
  cdrom : ch = 3 → c.direction = false

section
variable (hready : AlwaysReady bus) (hf : Forward ch c) (h : Underway bus ch c n e₀ s) (cycles : Nat)
include hready hf h

theorem Underway.mdec (hd : d = 0 ∨ d = 1) :
    Underway bus ch c n e₀ (advanceMdecChannel bus d cycles s) := by
  by_cases hne : ch = d
  · subst hne
    rcases h with h | h
    · have hdir : ¬ ((ch = 0 ∧ (s.channels ch).direction = false) ∨
          (ch = 1 ∧ (s.channels ch).direction = true)) := by
        rw [h.direction]
        rintro (⟨rfl, hdir⟩ | ⟨rfl, hdir⟩)
        · simp [hf.mdecIn rfl] at hdir
        · simp [hf.mdecOut rfl] at hdir
      rw [advanceMdecChannel, if_neg (by simp [h.active]),
        if_neg (by simp [h.busy hf.busy, h.enabled]), if_neg hdir]
      rcases hd with rfl | rfl
      · rw [if_pos rfl, if_neg (by simp [hready.mdecWrite])]
        exact h.advance hready.mdecWrite .mdecIn _ _
      · rw [if_neg (by decide), if_neg (by simp [hready.mdecRead])]
        exact h.advance hready.mdecRead .mdecOut _ _
    · rw [advanceMdecChannel, if_pos (by simp [h.idle])]
      exact .inr h
  · exact h.local (local_mdec bus d hd cycles s) hne

theorem Underway.cdrom : Underway bus ch c n e₀ (advanceCdrom bus cycles s) := by
  by_cases hne : ch = 3
  · subst hne
    rcases h with h | h
    · have hact : cdromTransferActive s = true := by
        simp [cdromTransferActive, h.active, h.busy hf.busy, h.enabled, h.direction, hf.cdrom rfl]
      rw [advanceCdrom, if_neg (by simp [hact]), if_neg (by simp [hready.cdrom])]
      exact h.advance hready.cdrom .cdrom _ _
    · rw [advanceCdrom, if_pos (by simp [cdromTransferActive, h.idle])]
      exact .inr h
  · exact h.local (local_cdrom bus cycles s) hne

omit hready hf in
theorem Underway.delayed : Underway bus ch c n e₀ (advanceDelayedComplete bus cycles d s) := by
  by_cases hne : ch = d
  · subst hne
    rcases h with h | h
    · rw [advanceDelayedComplete, if_pos (by simp [h.timer])]
      exact .inl h
    · exact .inr (h.delayed cycles)
  · exact h.local (local_delayed bus cycles d s) hne

omit h cycles in
theorem stageInv_underway : StageInv bus (Underway bus ch c n e₀) where
  mdec _ cycles _ hd h := h.mdec hready hf cycles hd
  cdrom cycles _ h := h.cdrom hready hf cycles
  delayed _ cycles _ h := h.delayed cycles

end

/-! ## 4. The start of a transfer -/

/-- `transfer_word_count`, where it does not ask the CD -/
def Channel.wordCount (c : Channel) : Nat :=
  let size := if c.blockSize = 0 then 0x10000 else c.blockSize
  if c.syncMode = 1#32 then size * (if c.blockCount = 0 then 1 else c.blockCount) else size

theorem transferWordCount_eq (h : ¬ (ch = 3 ∧ (s.channels ch).blockSize = 0)) :
    transferWordCount bus s ch = (s.channels ch).wordCount := if_neg h

theorem transferWordCount_kicked : transferWordCount bus (s.kicked ch) ch = transferWordCount bus s ch := by
  simp only [transferWordCount, State.kicked_self, Channel.syncMode_kick]
  rfl

theorem lengthOk_kicked : lengthOk bus (s.kicked ch) ch = lengthOk bus s ch := by
  simp [lengthOk, transferWordCount_kicked, State.kicked_self, Channel.syncMode_kick]

theorem running_start (hc : s.channels ch = c) (hen : s.enabled ch = true)
    (htimer : (s.delayed ch).active = false) (hn : 0 < n) :
    Running bus ch c n s.env ((s.kicked ch).setAsync ch ⟨true, n, n, 0⟩) := by
  have hasync : ((s.kicked ch).setAsync ch ⟨true, n, n, 0⟩).async ch = ⟨true, n, n, 0⟩ :=
    Function.update_self ..
  have hch : ((s.kicked ch).setAsync ch ⟨true, n, n, 0⟩).channels ch = c.kick :=
    State.kicked_self.trans (congrArg Channel.kick hc)
  refine ⟨⟨[], .nil _, ?_⟩, ?_, ?_, ?_, ?_, ?_, hen, htimer⟩
  all_goals simp only [hasync, hch, Nat.sub_self]
  exacts [rfl, hn, le_rfl, rfl]

/-- The state behind `n` words that are moved at once -/
def State.movedBy (s : State E) (ch : Fin 7) (move : Word → E → E) (n : Nat) : State E :=
  let r := moveWords (fun _ => true) move (s.channels ch).addrStep n (s.channels ch).startAddr s.env
  { s.setMadr ch r.2.1 with env := r.2.2 }

theorem settled_movedBy {move : Word → E → E} (hmove : ∀ a e, Happens bus (.word ch a) e (move a e))
    (hidle : (s.async ch).active = false) (hstep : (s.channels ch).addrStep = c.addrStep)
    (hstart : (s.channels ch).startAddr = c.startAddr) (n : Nat) :
    Settled bus ch c n s.env (s.movedBy ch move n) := by
  unfold State.movedBy
  rw [moveWords_eq (fun _ => rfl), hstep, hstart]
  refine ⟨⟨_, .words hmove _ _, moved_self ch _⟩, hidle, fun _ => ?_⟩
  simp [State.setMadr, State.setChannel]

theorem Settled.schedule (h : Settled bus ch c n e₀ s) (words cyclesPerWord : Nat) :
    Settled bus ch c n e₀ (scheduleDelayedComplete bus ch words cyclesPerWord s) := by
  unfold scheduleDelayedComplete
  split_ifs
  · exact h.complete
  · exact ⟨h.words, h.idle, h.madr⟩

end

/-! ## 5. The law -/

/-- Channel `ch` is about to be started with the registers `c`. -/
structure Starts (bus : Bus E) (ch : Fin 7) (c : Channel) (s : State E) : Prop where
  regs : s.channels ch = c
  enabled : s.enabled ch = true
  idle : (s.async ch).active = false
  books : Books ch s
  length : lengthOk bus s ch = true

end

open State Channel

/-- With devices that are ready, the transfer ends, and however the time is sliced it has then moved
`transfer_word_count` words, from `MADR` on, and left `MADR` behind the last one. -/
def LengthAgrees (ch : Fin 7) (c : Channel) : Prop :=
  ∀ (E : Type) (bus : Bus E) (s : State E), AlwaysReady bus → Starts bus ch c s →
    ∃ s₁, tryExecute bus ch s = some s₁ ∧
      (∃ cs, ((slices bus cs s₁).channels ch).busy = false) ∧
      ∀ cs, ((slices bus cs s₁).channels ch).busy = false →
        (∃ evs, Trace bus evs s.env (slices bus cs s₁).env ∧
          moved ch evs = addresses c.addrStep (transferWordCount bus s ch) c.startAddr) ∧
        (transferWordCount bus s ch ≠ 0 → ((slices bus cs s₁).channels ch).madr =
          addrAfter c.addrStep (transferWordCount bus s ch) c.startAddr)

/-- The registers whose length a channel takes as `transfer_word_count` does -/
def Handled (ch : Fin 7) (c : Channel) : Prop :=
  match ch with
  | 0 => c.direction = true
  | 1 => c.direction = false
  | 2 => if c.syncMode = 1#32 then c.blockSize ≠ 0 ∧ c.blockCount ≠ 0 else c.direction = true
  | 3 => c.direction = false
  | 4 => True
  | _ => False

section
variable {E : Type} {bus : Bus E} {ch : Fin 7} {c : Channel} {s : State E}

theorem Handled.forward (h : Handled ch c) (hb : c.busy = true) : Forward ch c := by
  refine ⟨hb, ?_, ?_, ?_⟩ <;> (rintro rfl; exact h)

theorem Starts.kicked_addrStep (h : Starts bus ch c s) : ((s.kicked ch).channels ch).addrStep = c.addrStep := by
  rw [kicked_self, h.regs, addrStep_kick]

theorem Starts.kicked_startAddr (h : Starts bus ch c s) :
    ((s.kicked ch).channels ch).startAddr = c.startAddr := by
  rw [kicked_self, h.regs]
  rfl

theorem Starts.timer (h : Starts bus ch c s) (hch : ch ≠ 2 ∧ ch ≠ 4) : (s.delayed ch).active = false := by
  refine Bool.eq_false_iff.mpr fun hact => ?_
  rcases (h.books.timer hact).1 with heq | heq
  · exact hch.1 heq
  · exact hch.2 heq

theorem startMdec_underway (hch : ch = 0 ∨ ch = 1) (h : Starts bus ch c s) :
    Underway bus ch c (transferWordCount bus s ch) s.env (startAsyncMdecTransfer bus ch (s.kicked ch)) := by
  have hidle : ¬ ((s.kicked ch).async ch).active = true := by simp [kicked, setChannel, h.idle]
  rw [startAsyncMdecTransfer, if_neg hidle, transferWordCount_kicked]
  have htimer : (s.delayed ch).active = false := by
    rcases hch with rfl | rfl <;> exact h.timer (by decide)
  refine .inl (running_start h.regs h.enabled htimer (transferWordCount_pos ?_))
  rcases hch with rfl | rfl <;> decide

theorem executeCh3_underway (hdir : c.direction = false) (h : Starts bus 3 c s) :
    Underway bus 3 c (transferWordCount bus s 3) s.env (executeCh3Cdrom bus (s.kicked 3)) := by
  have hdir' : ¬ ((s.kicked 3).channels 3).direction = true := by
    rw [kicked_self, h.regs, direction_kick, hdir]
    decide
  have hidle : ¬ ((s.kicked 3).async 3).active = true := by simp [kicked, setChannel, h.idle]
  rw [executeCh3Cdrom, if_neg hdir', startAsyncCdromTransfer, if_neg hidle, transferWordCount_kicked]
  dsimp only
  split_ifs with h0
  · refine .inr (Settled.complete ⟨⟨[], .nil _, ?_⟩, ?_, fun hne => absurd h0 hne⟩)
    · rw [h0]
      rfl
    · simp [cancelAsyncTransfer, setAsync, setDelayed]
  · exact .inl (running_start h.regs h.enabled (h.timer (by decide)) (Nat.pos_of_ne_zero h0))

theorem executeCh4_underway (h : Starts bus 4 c s) :
    Underway bus 4 c (transferWordCount bus s 4) s.env (scheduleDelayedComplete bus 4
      (executeCh4Spu bus (s.kicked 4)).1 48 (executeCh4Spu bus (s.kicked 4)).2) := by
  have hmove : ∀ a e, Happens bus (.word 4 a) e (if ((s.kicked 4).channels 4).direction then
      bus.spuWrite e (bus.readWord e a) else bus.writeWord e 4 a 0#32) := by
    intro a e
    split_ifs
    · exact .spuOut a e
    · exact .spuIn a e
  rw [← transferWordCount_kicked]
  exact .inr (Settled.schedule
    (settled_movedBy (s := s.kicked 4) hmove h.idle h.kicked_addrStep h.kicked_startAddr _) _ _)

theorem executeCh2_eq (h : Starts bus 2 c s) (hlist : c.syncMode ≠ 2#32) :
    ∃ move : Word → E → E, (∀ a e, Happens bus (.word 2 a) e (move a e)) ∧
      executeCh2Gpu bus (s.kicked 2) =
        if c.syncMode = 1#32 then
          (c.blockSize * c.blockCount, (s.kicked 2).movedBy 2 move (c.blockSize * c.blockCount))
        else if c.direction then (c.wordCount, (s.kicked 2).movedBy 2 move c.wordCount)
        else (0, s.kicked 2) := by
  have hregs : (s.kicked 2).channels 2 = c.kick := kicked_self.trans (congrArg kick h.regs)
  have hdir : ((s.kicked 2).channels 2).direction = c.direction := by rw [hregs, direction_kick]
  have hsync : ((s.kicked 2).channels 2).syncMode = c.syncMode := by rw [hregs, syncMode_kick]
  have hsize : ((s.kicked 2).channels 2).blockSize = c.blockSize := by rw [hregs]; rfl
  have hcount : ((s.kicked 2).channels 2).blockCount = c.blockCount := by rw [hregs]; rfl
  unfold executeCh2Gpu
  extract_lets regs toRam fromRam blocks
  rw [hdir, hsync, hsize, hcount]
  by_cases hblock : c.syncMode = 1#32
  · simp only [if_pos hblock]
    cases c.direction with
    | false => exact ⟨_, .gpuIn, rfl⟩
    | true => exact ⟨_, .gpuOut, rfl⟩
  · have hn : c.wordCount = if c.blockSize = 0 then 0x10000 else c.blockSize := if_neg hblock
    simp only [if_neg hblock, if_neg hlist, hn]
    cases c.direction with
    | false => exact ⟨_, .gpuIn, rfl⟩
    | true => exact ⟨_, .gpuOut, rfl⟩

theorem executeCh2_underway (h : Starts bus 2 c s) (hlist : c.syncMode ≠ 2#32) (hh : Handled 2 c) :
    Underway bus 2 c (transferWordCount bus s 2) s.env (scheduleDelayedComplete bus 2
      (executeCh2Gpu bus (s.kicked 2)).1 1 (executeCh2Gpu bus (s.kicked 2)).2) := by
  obtain ⟨move, hmove, hexec⟩ := executeCh2_eq h hlist
  have hcount : transferWordCount bus s 2 = c.wordCount := by
    rw [transferWordCount_eq (by simp), h.regs]
  have hsettled : ∀ n, Settled bus 2 c n s.env ((s.kicked 2).movedBy 2 move n) :=
    settled_movedBy (s := s.kicked 2) hmove h.idle h.kicked_addrStep h.kicked_startAddr
  refine .inr (Settled.schedule ?_ _ _)
  rw [hcount, hexec]
  simp only [Handled] at hh
  split_ifs at hh ⊢ with hblock
  · have hn : c.wordCount = c.blockSize * c.blockCount := by
      simp [wordCount, hblock, hh.1, hh.2]
    rw [hn]
    exact hsettled _
  · exact hsettled _

theorem Starts.tryExecute_eq (h : Starts bus ch c s) (hb : c.busy = true) :
    tryExecute bus ch s = execute bus ch (s.kicked ch) := by
  refine tryExecute_kicked ?_ h.enabled (lengthOk_kicked.trans h.length)
  rw [h.regs]
  exact hb

theorem Starts.underway (h : Starts bus ch c s) (hb : c.busy = true)
    (hlist : ¬ (ch = 2 ∧ c.syncMode = 2#32)) (hh : Handled ch c) :
    ∃ s₁, tryExecute bus ch s = some s₁ ∧ Underway bus ch c (transferWordCount bus s ch) s.env s₁ := by
  rw [h.tryExecute_eq hb]
  match ch with
  | 0 => exact ⟨_, rfl, startMdec_underway (.inl rfl) h⟩
  | 1 => exact ⟨_, rfl, startMdec_underway (.inr rfl) h⟩
  | 2 => exact ⟨_, rfl, executeCh2_underway h (fun heq => hlist ⟨rfl, heq⟩) hh⟩
  | 3 => exact ⟨_, rfl, executeCh3_underway hh h⟩
  | 4 => exact ⟨_, rfl, executeCh4_underway h⟩
  | 5 => exact hh.elim
  | 6 => exact hh.elim

theorem Starts.ends {s₁ : State E} (h : Starts bus ch c s) (hready : AlwaysReady bus) (hch : ch ≠ 5)
    (heq : tryExecute bus ch s = some s₁) : ∃ cs, ((slices bus cs s₁).channels ch).busy = false := by
  have he := tryExecute_effect heq
  cases hbusy : (s₁.channels ch).busy with
  | false => exact ⟨[], hbusy⟩
  | true =>
    obtain ⟨m, hm⟩ := (h.books.effect he).completes hready hch hbusy ((he.enabled_eq ch).trans h.enabled)
    exact ⟨[m], hm m (BitVec.le_refl m)⟩

end

theorem lengthAgrees_of_handled {ch : Fin 7} {c : Channel} (hch : ch ≠ 5) (hb : c.busy = true)
    (hlist : ¬ (ch = 2 ∧ c.syncMode = 2#32)) (hh : Handled ch c) : LengthAgrees ch c := by
  intro E bus s hready h
  obtain ⟨s₁, heq, hunder⟩ := h.underway hb hlist hh
  refine ⟨s₁, heq, h.ends hready hch heq, fun cs hdone => ?_⟩
  rcases (stageInv_underway hready (hh.forward hb)).slices hunder cs with hrun | hsettled
  · rw [hrun.busy hb] at hdone
    cases hdone
  · exact ⟨hsettled.words, hsettled.madr⟩

/-! ## 6. Transfers that move nothing -/

/-- Devices that record what the controller calls. A word of RAM is its own address. -/
def logBus : Bus (List Event) where
  readWord _ a := a
  writeWord e ch a _ := e ++ [.word ch a]
  mdecWriteReady _ := true
  mdecWriteWord e v := e ++ [.word 0 v]
  mdecReadReady _ := true
  mdecReadWord e := (0#32, e)
  gpuRead e := (0#32, e)
  gpuWrite e a _ := e ++ [.word 2 a]
  spuWrite e v := e ++ [.word 4 v]
  cdromReady _ := true
  cdromRead e := (0#32, e)
  cdromSectorWords _ := 512
  markExecutable e _ := e
  irqRaise e v := e ++ [.irq v]

theorem logBus_ready : AlwaysReady logBus := ⟨fun _ => rfl, fun _ => rfl, fun _ => rfl⟩

theorem happens_log {ev : Event} {e e' : List Event} (h : Happens logBus ev e e') : e' = e ++ [ev] := by
  cases h <;> rfl

theorem trace_log {evs e e' : List Event} (h : Trace logBus evs e e') : e' = e ++ evs := by
  induction h with
  | nil e => exact (append_nil e).symm
  | cons hev _ ih => rw [ih, happens_log hev, List.append_assoc, singleton_append]

section
variable {E : Type} {bus : Bus E} {ch d : Fin 7} {e₀ : E} {s s' : State E}

/-- The channel has moved nothing since `e₀`, and will not. -/
structure Idles (bus : Bus E) (ch : Fin 7) (e₀ : E) (s : State E) : Prop where
  none : ∃ evs, Trace bus evs e₀ s.env ∧ moved ch evs = []
  wrongWay : (s.async ch).active = true → (ch = 0 ∧ (s.channels ch).direction = false) ∨
    (ch = 1 ∧ (s.channels ch).direction = true)

theorem Idles.local (h : Idles bus ch e₀ s) (hl : Local bus d s s') (hne : ch ≠ d) : Idles bus ch e₀ s' := by
  refine ⟨Trace.extend h.none (hl.none hne), ?_⟩
  rw [hl.async ch hne, hl.channels ch hne]
  exact h.wrongWay

theorem Idles.complete (h : Idles bus ch e₀ s) : Idles bus ch e₀ (completeTransfer bus ch s) := by
  refine ⟨Trace.extend h.none ((trace_complete bus ch s).imp fun _ h => ⟨h.1, h.2 ch⟩), ?_⟩
  rw [(completeTransfer_kept ..).1, completeTransfer_channels, Function.update_self]
  have hdir := direction_stop (s.channels ch)
  exact fun hact => (h.wrongWay hact).imp (.imp_right hdir.trans) (.imp_right hdir.trans)

theorem Idles.mdec (h : Idles bus ch e₀ s) (hd : d = 0 ∨ d = 1) (cycles : Nat) :
    Idles bus ch e₀ (advanceMdecChannel bus d cycles s) := by
  by_cases hne : ch = d
  · subst hne
    by_cases hact : (s.async ch).active = true
    · rw [advanceMdecChannel, if_neg (by simp [hact])]
      split_ifs with hoff hdir
      · exact h
      · refine Idles.complete ⟨h.none, fun hact' => ?_⟩
        simp [cancelAsyncTransfer, setAsync, setDelayed] at hact'
      all_goals exact absurd (h.wrongWay hact) hdir
    · rw [advanceMdecChannel, if_pos (by simp [hact])]
      exact h
  · exact h.local (local_mdec bus d hd cycles s) hne

theorem Idles.cdrom (h : Idles bus ch e₀ s) (cycles : Nat) : Idles bus ch e₀ (advanceCdrom bus cycles s) := by
  by_cases hne : ch = 3
  · subst hne
    have hact : (s.async 3).active = false := by
      refine Bool.eq_false_iff.mpr fun hact => ?_
      rcases h.wrongWay hact with ⟨hch, -⟩ | ⟨hch, -⟩ <;> cases hch
    rw [advanceCdrom, if_pos (by simp [cdromTransferActive, hact])]
    exact h
  · exact h.local (local_cdrom bus cycles s) hne

theorem Idles.delayed (h : Idles bus ch e₀ s) (cycles : Nat) (d : Fin 7) :
    Idles bus ch e₀ (advanceDelayedComplete bus cycles d s) := by
  by_cases hne : ch = d
  · subst hne
    unfold advanceDelayedComplete
    split_ifs
    · exact h
    · exact ⟨h.none, h.wrongWay⟩
    · exact Idles.complete ⟨h.none, h.wrongWay⟩
  · exact h.local (local_delayed bus cycles d s) hne

theorem stageInv_idles : StageInv bus (Idles bus ch e₀) where
  mdec _ cycles _ hd h := h.mdec hd cycles
  cdrom cycles _ h := h.cdrom cycles
  delayed d cycles _ h := h.delayed cycles d

variable {c : Channel}

theorem Idles.of_inactive {e : E} (hasync : (s.async ch).active = false) (henv : s.env = e) :
    Idles bus ch e s :=
  ⟨⟨[], henv ▸ .nil _, rfl⟩, fun hact => by rw [hasync] at hact; cases hact⟩

theorem executeCh2_idles (h : Starts bus 2 c s) (hlist : c.syncMode ≠ 2#32) (hh : ¬ Handled 2 c) :
    Idles bus 2 s.env (scheduleDelayedComplete bus 2
      (executeCh2Gpu bus (s.kicked 2)).1 1 (executeCh2Gpu bus (s.kicked 2)).2) := by
  obtain ⟨move, -, hexec⟩ := executeCh2_eq h hlist
  have hnone : (executeCh2Gpu bus (s.kicked 2)).1 = 0 ∧
      Idles bus 2 s.env (executeCh2Gpu bus (s.kicked 2)).2 := by
    rw [hexec]
    simp only [Handled] at hh
    split_ifs at hh ⊢ with hblock
    · have hn : c.blockSize * c.blockCount = 0 := by
        rw [Nat.mul_eq_zero]
        tauto
      rw [hn]
      exact ⟨rfl, .of_inactive h.idle rfl⟩
    · exact ⟨rfl, .of_inactive h.idle rfl⟩
  rw [scheduleDelayedComplete, if_pos (.inl hnone.1)]
  exact hnone.2.complete

theorem startMdec_idles (h : Starts bus ch c s) (hwrong : (ch = 0 ∧ c.direction = false) ∨
    (ch = 1 ∧ c.direction = true)) : Idles bus ch s.env (startAsyncMdecTransfer bus ch (s.kicked ch)) := by
  have hidle : ¬ ((s.kicked ch).async ch).active = true := by simp [kicked, setChannel, h.idle]
  rw [startAsyncMdecTransfer, if_neg hidle]
  refine ⟨⟨[], .nil _, rfl⟩, fun _ => ?_⟩
  have hdir : ((s.kicked ch).channels ch).direction = c.direction := by
    rw [kicked_self, h.regs, direction_kick]
  change (ch = 0 ∧ ((s.kicked ch).channels ch).direction = false) ∨
    (ch = 1 ∧ ((s.kicked ch).channels ch).direction = true)
  rwa [hdir]

theorem executeCh3_idles (h : Starts bus 3 c s) (hdir : c.direction = true) :
    Idles bus 3 s.env (executeCh3Cdrom bus (s.kicked 3)) := by
  rw [executeCh3Cdrom, if_pos]
  · exact .of_inactive h.idle rfl
  · rw [kicked_self, h.regs, direction_kick, hdir]

theorem Starts.idles (h : Starts bus ch c s) (hb : c.busy = true)
    (hlist : ¬ (ch = 2 ∧ c.syncMode = 2#32)) (hch : ch = 0 ∨ ch = 1 ∨ ch = 2 ∨ ch = 3)
    (hh : ¬ Handled ch c) : ∃ s₁, tryExecute bus ch s = some s₁ ∧ Idles bus ch s.env s₁ := by
  rw [h.tryExecute_eq hb]
  rcases hch with rfl | rfl | rfl | rfl
  · exact ⟨_, rfl, startMdec_idles h (.inl ⟨rfl, Bool.eq_false_iff.mpr hh⟩)⟩
  · exact ⟨_, rfl, startMdec_idles h (.inr ⟨rfl, Bool.ne_false_iff.mp hh⟩)⟩
  · exact ⟨_, rfl, executeCh2_idles h (fun heq => hlist ⟨rfl, heq⟩) hh⟩
  · exact ⟨_, rfl, executeCh3_idles h (Bool.ne_false_iff.mp hh)⟩

end

/-! ## 7. When the lengths agree -/

/-- The registers of a transfer that `validate_transfer_length` lets through -/
def LengthValid (ch : Fin 7) (c : Channel) : Prop :=
  (ch = 3 ∧ c.blockSize = 0) ∨ c.wordCount ≤ dmaMaxTransferWords

/-- Everything enabled and idle, and channel `ch` with its registers set -/
def readyToStart (ch : Fin 7) (c : Channel) : State (List Event) :=
  { reset [] with dpcr := 0x08888888#32, channels := Function.update (fun _ => {}) ch c }

section
variable {ch : Fin 7} {c : Channel}

theorem readyToStart_self : (readyToStart ch c).channels ch = c :=
  Function.update_self (f := fun _ => ({} : Channel)) ..

theorem starts_ready (hlen : LengthValid ch c) : Starts logBus ch c (readyToStart ch c) where
  regs := readyToStart_self
  enabled := by
    have hall : ∀ ch : Fin 7, (0x08888888#32).getLsbD (ch.val * 4 + 3) = true := by decide
    exact hall ch
  idle := rfl
  books := ⟨(fun h => by cases h), (fun h => by cases h)⟩
  length := by
    have hle : transferWordCount logBus (readyToStart ch c) ch ≤ dmaMaxTransferWords := by
      by_cases hsector : ch = 3 ∧ ((readyToStart ch c).channels ch).blockSize = 0
      · rw [transferWordCount, if_pos hsector]
        exact (by decide : 512 ≤ dmaMaxTransferWords)
      · rw [transferWordCount_eq hsector]
        rw [readyToStart_self] at hsector ⊢
        exact hlen.resolve_left hsector
    simp [lengthOk, hle]

theorem transferWordCount_ready_pos : 0 < transferWordCount logBus (readyToStart ch c) ch := by
  by_cases hch : ch = 3
  · unfold transferWordCount
    dsimp only
    split_ifs with hsector
    · exact (by decide : 0 < 512)
    all_goals first | omega | exact Nat.mul_pos (by omega) (by omega)
  · exact transferWordCount_pos hch

theorem not_lengthAgrees_of_idles (hlen : LengthValid ch c) (hb : c.busy = true)
    (hlist : ¬ (ch = 2 ∧ c.syncMode = 2#32)) (hch : ch = 0 ∨ ch = 1 ∨ ch = 2 ∨ ch = 3)
    (hh : ¬ Handled ch c) : ¬ LengthAgrees ch c := by
  intro hagrees
  have hstarts := starts_ready hlen
  obtain ⟨s₁, heq, ⟨cs, hdone⟩, hall⟩ := hagrees _ logBus _ logBus_ready hstarts
  obtain ⟨s₁', heq', hidles⟩ := hstarts.idles hb hlist hch hh
  cases heq.symm.trans heq'
  obtain ⟨⟨evs, ht, hm⟩, -⟩ := hall cs hdone
  obtain ⟨evs', ht', hm'⟩ := (stageInv_idles.slices hidles cs).none
  -- the record is the same, so the words are
  obtain rfl : evs = evs' := append_cancel_left ((trace_log ht).symm.trans (trace_log ht'))
  have hlength := congrArg List.length (hm.symm.trans hm')
  rw [length_addresses, length_nil] at hlength
  exact absurd hlength (Nat.ne_of_gt transferWordCount_ready_pos)

theorem trace_clearTable {E : Type} {bus : Bus E} (n : Nat) (addr : Word) (e : E) :
    Trace bus ((addresses (-4#32) n addr).map (Event.word 6)) e (clearTable bus n addr e) := by
  induction n generalizing addr e with
  | zero => exact .nil e
  | succ n ih => exact .cons (.otc addr _ e) (ih _ _)

theorem not_lengthAgrees_otc (hlen : LengthValid 6 c) (hb : c.busy = true) : ¬ LengthAgrees 6 c := by
  intro hagrees
  have hstarts := starts_ready hlen
  obtain ⟨s₁, heq, -, hall⟩ := hagrees _ logBus _ logBus_ready hstarts
  rw [hstarts.tryExecute_eq hb] at heq
  cases heq
  set t : State (List Event) := { (readyToStart 6 c).kicked 6 with
    env := clearTable logBus (numEntries c) c.startAddr [] } with ht
  obtain ⟨⟨evs, htrace, hm⟩, hmadr⟩ := hall [] (busy_complete 6 t)
  -- it has written its entries, however many words were validated
  obtain ⟨evs', htrace', hm'⟩ := trace_complete logBus 6 t
  have hentries : moved 6 evs = addresses (-4#32) (numEntries c) c.startAddr := by
    have hrecord := (trace_log htrace).symm.trans
      (trace_log ((trace_clearTable (numEntries c) c.startAddr []).append htrace'))
    rw [append_cancel_left hrecord, moved_append, hm', append_nil, moved_self]
  have hcount : transferWordCount logBus (readyToStart 6 c) 6 = numEntries c := by
    have := congrArg List.length (hm.symm.trans hentries)
    rwa [length_addresses, length_addresses] at this
  have hkept : ((completeTransfer logBus 6 t).channels 6).madr = c.madr := by
    rw [completeTransfer_channels, Function.update_self]
    change (((readyToStart 6 c).kicked 6).channels 6).madr = c.madr
    rfl
  have hafter : c.madr = addrAfter c.addrStep (numEntries c) c.startAddr := by
    rw [← hkept, ← hcount]
    exact hmadr (Nat.ne_of_gt transferWordCount_ready_pos)
  have hstart : c.startAddr = addrAfter c.addrStep (numEntries c) c.startAddr := by
    conv_lhs => rw [startAddr, hafter]
    exact inRam_addrAfter (inRam_startAddr c) _
  have hbounds := numEntries_bounds c
  have hzero := addrAfter_inj (i := 0) (addrStep_cases c) (inRam_startAddr c) (by omega) (by omega) hstart
  omega

end

/-- **The length of a transfer.** Validated and moved lengths agree exactly for the registers that the
channel handles. They do not for block transfers of channel 2 with a size or count of zero, for
transfers against the direction of their device (channels 0, 1 and 3, and channel 2 outside block mode),
which end without moving anything, and never for channel 6, which keeps its `MADR`. -/
theorem length_agrees_iff (ch : Fin 7) (c : Channel) (hch : ch ≠ 5) (hb : c.busy = true)
    (hlist : ¬ (ch = 2 ∧ c.syncMode = 2#32)) (hlen : LengthValid ch c) :
    LengthAgrees ch c ↔ Handled ch c := by
  refine ⟨fun hagrees => ?_, lengthAgrees_of_handled hch hb hlist⟩
  by_contra hh
  match ch with
  | 0 | 1 | 2 | 3 => exact not_lengthAgrees_of_idles hlen hb hlist (by decide) hh hagrees
  | 4 => exact hh trivial
  | 5 => exact hch rfl
  | 6 => exact not_lengthAgrees_otc hlen hb hagrees

/-- Sixteen blocks of sixteen words to the SPU -/
theorem length_agrees_spu : LengthAgrees 4 ⟨0x80010000#32, 0x00100010#32, 0x01000201#32⟩ :=
  (length_agrees_iff 4 ⟨0x80010000#32, 0x00100010#32, 0x01000201#32⟩ (by decide) (by decide) (by decide)
    (.inr (by decide))).mpr trivial

/-- One block of sixteen words to the GPU, with the count left at zero: sixteen words are validated and none
is sent. -/
theorem zero_count_moves_nothing : ¬ LengthAgrees 2 ⟨0x80010000#32, 0x00000010#32, 0x01000201#32⟩ :=
  not_lengthAgrees_of_idles (.inr (by decide)) (by decide) (by decide) (by decide)
    (by simp only [Handled]; decide)

end PsxRecomp.Dma
