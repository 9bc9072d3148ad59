import Mathlib.Data.List.Perm.Basic
import PsxRecomp.Runtime.OverlayValid

/-!
# `Runtime/OverlayActive.lean` — the stack of running overlay functions

A native function that writes over its own code goes on running the code it was compiled from, and the
loader can only see to it that the function is not called again. For that `dispatch_impl` keeps
`s_active_stack`: it pushes the candidate before `fn` is called and pops behind it, and a store to a
watched page is compared with the code of everything on the stack (`activeWriteCheck`).

The stack is meant to be the native part of the host's call stack, so the host is modelled beside the
loader (`Host`): the calls of `fn` that are under way, each on the fiber it was made on. A call ends by
returning, at once or after the interrupt check behind it (`overlay_post_dispatch_irq_pump`), or it is
abandoned by a `longjmp` to the scheduler or to the frame of an exception.
-/

set_option autoImplicit false

namespace PsxRecomp.Overlay

open Ram List Option State

/-! ## 1. The host -/

/-- A call of `fn` by `dispatch_impl` -/
structure Frame where
  fiber : Nat
  cand : Nat
  /-- `fn` has returned, and the interrupts are being checked -/
  returned : Bool := false

/-- The loader, the fiber that runs, and the calls under way on all of them, the last one first -/
structure Host where
  loader : State
  fiber : Nat
  frames : List Frame

/-- The innermost call of a fiber is marked as returned. -/
def markReturned (fiber : Nat) : List Frame → List Frame
  | [] => []
  | f :: fs => if f.fiber = fiber then { f with returned := true } :: fs else f :: markReturned fiber fs

/-- The `n` innermost calls of a fiber are given up. -/
def abandon (fiber : Nat) : Nat → List Frame → List Frame
  | 0, fs => fs
  | n + 1, fs => abandon fiber n (fs.eraseP fun f => f.fiber = fiber)

namespace Host
variable (h : Host)

def top : Option Frame := h.frames.find? fun f => f.fiber = h.fiber

/-- The candidates whose `fn` has been called and has not returned -/
def live : List Nat := (h.frames.filter fun f => !f.returned).map Frame.cand

/-- `s_active_depth--` -/
def popActive : Host :=
  { h with
    loader := { h.loader with active := h.loader.active.tail }
    frames := h.frames.eraseP fun f => f.fiber = h.fiber }

end Host

inductive HostOp
  /-- any step of the loader but the end of a call -/
  | loader (op : Op)
  /-- `fn` returns; `pump` says if interrupts are then checked -/
  | ret (pump : Bool)
  /-- the check is over -/
  | leave
  /-- a `longjmp` over the `n` innermost calls of the fiber -/
  | escape (n : Nat)
  | switch (fiber : Nat)
  /-- `psx_fiber_destroy` -/
  | destroy (fiber : Nat)

def newFrame (fiber : Nat) : Op → Option Nat → List Frame
  | .dispatch _ _, some i => [{ fiber := fiber, cand := i }]
  | _, _ => []

def Host.step : HostOp → Host → Option Host
  | .loader .leave, _ => none
  | .loader op, h =>
    (Overlay.step op h.loader).map fun r =>
      { h with loader := r.1, frames := newFrame h.fiber op r.2 ++ h.frames }
  | .ret pump, h =>
    match h.top with
    | some ⟨_, _, false⟩ =>
      some (if pump then { h with frames := markReturned h.fiber h.frames } else h.popActive)
    | _ => none
  | .leave, h =>
    match h.top with
    | some ⟨_, _, true⟩ => some h.popActive
    | _ => none
  | .escape n, h => some { h with frames := abandon h.fiber n h.frames }
  | .switch fiber, h => some { h with fiber := fiber }
  | .destroy fiber, h =>
    if fiber = h.fiber then none else some { h with frames := h.frames.filter fun f => f.fiber ≠ fiber }

/-! ## 2. What is to hold -/

/-- A store of `size` bytes writes a byte of the candidate's code. -/
def Candidate.Overlaps (c : Candidate) (phys size : Nat) : Prop :=
  ∃ r ∈ c.ranges, ∃ a, r.Contains a ∧ phys ≤ a ∧ a < phys + size

/-- The active stack holds the running functions and nothing else. -/
def Host.Exact (h : Host) : Prop := h.loader.active.Perm h.live

/-- The running functions whose code has been written are blacklisted. -/
def Detected (h h' : Host) (phys size : Nat) : Prop :=
  ∀ i ∈ h.live, ∀ c, h.loader.cands[i]? = some c → c.Overlaps phys size →
    (h'.loader.cands[i]?).map Candidate.state = some .blacklist

structure Lawful (op : HostOp) (h h' : Host) : Prop where
  exact : h'.Exact
  detected : ∀ w phys val, op = .loader (.store w phys val) → Detected h h' phys w.size

/-- The store begins on a page that is not watched, and reaches into the code of a function that runs. -/
def Straddles (h : Host) (phys size : Nat) : Prop :=
  h.loader.mem.watched (pageOf phys) = false ∧
    ∃ i ∈ h.live, ∃ c, h.loader.cands[i]? = some c ∧ c.Overlaps phys size ∧ c.state ≠ .blacklist

def Ok : HostOp → Host → Prop
  -- there is room for the call
  | .loader (.dispatch sw addr), h =>
    ∀ i, (sw.dispatchImpl addr h.loader).2 = .call i → h.loader.active.length < 64
  | .loader (.store w phys _), h => ¬ Straddles h phys w.size
  | .loader _, _ => True
  -- the function that returns is on top of the stack, and is popped at once
  | .ret pump, h => pump = false ∧ h.top.map Frame.cand = h.loader.active.head?
  | .leave, _ => True
  -- no call is given up
  | .escape n, h => n = 0 ∨ h.top = none
  | .switch _, _ => True
  | .destroy fiber, h => ∀ f ∈ h.frames, f.fiber ≠ fiber

/-- Every step of a history meets a condition, which may look at the states before and after it. -/
def Always (P : HostOp → Host → Host → Prop) : List HostOp → Host → Prop
  | [], _ => True
  | op :: ops, h => ∀ h', h.step op = some h' → P op h h' ∧ Always P ops h'

/-! ## 3. The loader's steps -/

section
variable {s s' : State} {sw : Switches}

theorem step_dispatch {addr : Word} {called : Option Nat}
    (h : step (.dispatch sw addr) s = some (s', called)) :
    (∃ i, (sw.dispatchImpl addr s).2 = .call i ∧ called = some i ∧
        s'.active = if s.active.length < 64 then i :: s.active else s.active) ∨
      (∀ i, (sw.dispatchImpl addr s).2 ≠ .call i) ∧ called = none ∧ s'.active = s.active := by
  have hactive := (dispatchImpl_ok sw addr s).1.active
  unfold step at h
  cases hd : sw.dispatchImpl addr s with
  | mk t out =>
    rw [hd] at hactive
    simp only [hd] at h
    cases out with
    | interp =>
      cases h
      exact .inr ⟨nofun, rfl, hactive⟩
    | call i =>
      obtain ⟨rfl, rfl⟩ := h
      refine .inl ⟨i, rfl, rfl, ?_⟩
      rw [hactive]
    | shadow i =>
      cases h
      exact .inr ⟨nofun, rfl, hactive⟩

theorem step_active {op : Op} {called : Option Nat} (hleave : op ≠ .leave)
    (hdispatch : ∀ sw addr, op ≠ .dispatch sw addr) (h : step op s = some (s', called)) :
    s'.active = s.active := by
  cases op with
  | candRegister phys ranges crc probe =>
    cases h
    unfold candRegister
    split_ifs <;> rfl
  | registerSljit phys range crcOverride =>
    cases h
    unfold registerSljitCandidate
    split_ifs <;> rfl
  | store w phys val =>
    cases h
    unfold store
    split_ifs <;> rfl
  | restore ram =>
    cases h
    rfl
  | dispatch sw addr => exact absurd rfl (hdispatch sw addr)
  | leave => exact absurd rfl hleave
  | shadowDevice | shadowNative | shadowEnd regsSame =>
    dsimp only [step] at h
    split at h <;> cases h
    rfl

end

/-! ## 4. One step -/

structure Host.Good (h : Host) : Prop where
  exact : h.Exact
  running : ∀ f ∈ h.frames, f.returned = false

section
variable {h h' : Host} {f : Frame} {fiber : Nat} {fs : List Frame}

theorem live_of_running (hr : ∀ f ∈ h.frames, f.returned = false) : h.live = h.frames.map Frame.cand := by
  rw [Host.live, filter_eq_self.mpr fun f hf => by rw [hr f hf]; rfl]

theorem Host.Good.perm (hg : h.Good) : h.loader.active.Perm (h.frames.map Frame.cand) :=
  live_of_running hg.running ▸ hg.exact

theorem perm_eraseP (hf : fs.find? (fun f => f.fiber = fiber) = some f) :
    fs.Perm (f :: fs.eraseP fun f => f.fiber = fiber) := by
  obtain ⟨hp, as, bs, rfl, has⟩ := find?_eq_some_iff_append.mp hf
  rw [eraseP_append_right _ (by simpa using has), eraseP_cons_of_pos (by simpa using hp)]
  exact perm_middle

theorem length_filter_markReturned (hf : fs.find? (fun f => f.fiber = fiber) = some f)
    (hr : f.returned = false) :
    ((markReturned fiber fs).filter fun f => !f.returned).length + 1 =
      (fs.filter fun f => !f.returned).length := by
  induction fs with
  | nil => cases hf
  | cons g fs ih =>
    by_cases hg : g.fiber = fiber
    · rw [find?_cons_of_pos (by simpa using hg), some.injEq] at hf
      rw [markReturned, if_pos hg, filter_cons_of_neg (by simp),
        filter_cons_of_pos (by rw [hf, hr]; rfl), length_cons]
    · rw [find?_cons_of_neg (by simpa using hg)] at hf
      rw [markReturned, if_neg hg, filter_cons, filter_cons]
      split_ifs
      · rw [length_cons, length_cons, ih hf]
      · exact ih hf

theorem abandon_sublist (fiber n : Nat) (fs : List Frame) : (abandon fiber n fs).Sublist fs := by
  induction n generalizing fs with
  | zero => exact .refl fs
  | succ n ih => exact (ih _).trans eraseP_sublist

theorem abandon_eq_iff {n : Nat} :
    (abandon fiber n fs).length = fs.length ↔ n = 0 ∨ fs.find? (fun f => f.fiber = fiber) = none := by
  cases n with
  | zero => exact iff_of_true rfl (.inl rfl)
  | succ n =>
    cases hf : fs.find? fun f => f.fiber = fiber with
    | none =>
      refine iff_of_true ?_ (.inr rfl)
      have hnone : ∀ n, abandon fiber n fs = fs := by
        intro n
        induction n with
        | zero => rfl
        | succ n ih =>
          rw [abandon, eraseP_of_forall_not (by simpa using hf)]
          exact ih
      rw [hnone]
    | some f =>
      refine iff_of_false (fun heq => ?_) (by simp)
      have hlen := (perm_eraseP hf).length_eq
      have hle := (abandon_sublist fiber n (fs.eraseP fun f => f.fiber = fiber)).length_le
      rw [abandon] at heq
      simp only [length_cons] at hlen
      omega

variable {op : HostOp}

theorem lawful_iff_exact (hop : ∀ w phys val, op ≠ .loader (.store w phys val)) :
    Lawful op h h' ↔ h'.Exact :=
  ⟨Lawful.exact, fun hexact => ⟨hexact, fun w phys val heq => absurd heq (hop w phys val)⟩⟩

theorem Host.Good.same (hg : h.Good) (ha : h'.loader.active = h.loader.active) (hf : h'.frames = h.frames) :
    h'.Good where
  exact := by
    rw [Host.Exact, Host.live, ha, hf]
    exact hg.exact
  running := by
    rw [hf]
    exact hg.running

theorem exact_of_sublist (hg : h.Good) (hf : fs.Sublist h.frames) :
    Host.Exact { h with frames := fs } ↔ fs.length = h.frames.length := by
  have hrun : ∀ f ∈ fs, f.returned = false := fun f hmem => hg.running f (hf.subset hmem)
  rw [Host.Exact, live_of_running (h := { h with frames := fs }) hrun]
  constructor
  · intro hperm
    have := (hperm.symm.trans hg.perm).length_eq
    rwa [length_map, length_map] at this
  · intro hlen
    rw [hf.eq_of_length hlen]
    exact hg.perm

theorem detected_iff (hg : h.Good) {w : Width} {phys : Nat} {val : Word}
    (hs : h'.loader = h.loader.store w phys val) : Detected h h' phys w.size ↔ ¬ Straddles h phys w.size := by
  cases hw : h.loader.mem.watched (pageOf phys) with
  | true =>
    refine iff_of_true (fun i hi c hc hover => ?_) fun hstr => Bool.false_ne_true (hstr.1.symm.trans hw)
    have hactive : i ∈ h.loader.active := hg.exact.mem_iff.mpr hi
    obtain ⟨r, hr, a, ⟨hlo, hhi⟩, hle, hlt⟩ := hover
    have hcheck : (c.ranges.any fun r => decide (phys < r.lo + r.len ∧ r.lo < phys + w.size)) = true :=
      any_eq_true.mpr ⟨r, hr, by simp only [decide_eq_true_eq]; omega⟩
    rw [hs, store, if_pos hw, activeWriteCheck, getElem?_mapIdx, hc]
    simp only [map_some, if_pos (And.intro hactive hcheck)]
  | false =>
    have hcands : h'.loader.cands = h.loader.cands := by
      rw [hs, store, if_neg (by rw [hw]; exact Bool.false_ne_true)]
    constructor
    · rintro hdet ⟨-, i, hi, c, hc, hover, hne⟩
      have hstate := hdet i hi c hc hover
      rw [hcands, hc] at hstate
      exact hne (some.inj hstate)
    · intro hstr i hi c hc hover
      rw [hcands, hc]
      by_contra hne
      exact hstr ⟨hw, i, hi, c, hc, hover, fun heq => hne (by rw [map_some, heq])⟩

theorem call_exact_iff (hg : h.Good) {i : Nat} (hf : h'.frames = { fiber := h.fiber, cand := i } :: h.frames)
    (ha : h'.loader.active = if h.loader.active.length < 64 then i :: h.loader.active else h.loader.active) :
    h'.Exact ↔ h.loader.active.length < 64 := by
  have hlive : h'.live = i :: h.live := by
    rw [Host.live, hf]
    rfl
  rw [Host.Exact, hlive, ha]
  split_ifs with hroom
  · exact iff_of_true (hg.exact.cons i) hroom
  · refine iff_of_false (fun hperm => ?_) hroom
    have := (hg.exact.symm.trans hperm).length_eq
    simp at this

theorem pop_exact_iff (hg : h.Good) (htop : h.top = some f) :
    h.popActive.Exact ↔ some f.cand = h.loader.active.head? := by
  have hperm := hg.perm.trans ((perm_eraseP htop).map Frame.cand)
  have hrun : ∀ g ∈ h.popActive.frames, g.returned = false := fun g hmem =>
    hg.running g (eraseP_subset hmem)
  rw [Host.Exact, live_of_running hrun]
  show h.loader.active.tail.Perm ((h.frames.eraseP fun g => g.fiber = h.fiber).map Frame.cand) ↔ _
  cases hact : h.loader.active with
  | nil =>
    rw [hact] at hperm
    exact absurd hperm.length_eq (by simp)
  | cons x xs =>
    rw [hact, map_cons] at hperm
    simp only [tail_cons, head?_cons, some.injEq]
    constructor
    · intro htail
      have hcount := (hperm.symm.trans (htail.cons x)).count_eq f.cand
      rw [count_cons_self, count_cons] at hcount
      split_ifs at hcount with hx
      · exact (beq_iff_eq.mp hx).symm
      · omega
    · rintro rfl
      exact hperm.cons_inv

/-- A step that does not meet its condition is the first at which the stack and the host differ. -/
theorem lawful_iff (hg : h.Good) (hstep : h.step op = some h') :
    (Lawful op h h' ↔ Ok op h) ∧ (Lawful op h h' → h'.Good) := by
  cases op with
  | loader op =>
    cases op with
    | leave => cases hstep
    | dispatch sw addr =>
      obtain ⟨⟨s', called⟩, hs, rfl⟩ := map_eq_some_iff.mp hstep
      rw [lawful_iff_exact (by simp)]
      rcases step_dispatch hs with ⟨i, hout, rfl, hact⟩ | ⟨hout, rfl, hact⟩
      · rw [call_exact_iff hg rfl hact]
        refine ⟨⟨fun hroom _ _ => hroom, fun hok => hok i hout⟩, fun hroom => ⟨?_, ?_⟩⟩
        · exact (call_exact_iff hg rfl hact).mpr hroom
        · exact forall_mem_cons.mpr ⟨rfl, hg.running⟩
      · have hsame : Host.Good { h with loader := s', frames := h.frames } := hg.same hact rfl
        exact ⟨iff_of_true hsame.exact fun i heq => absurd heq (hout i), fun _ => hsame⟩
    | store w phys val =>
      simp only [Host.step, map_eq_some_iff] at hstep
      obtain ⟨⟨s', called⟩, hs, rfl⟩ := hstep
      have hsame : Host.Good { h with loader := s' } := hg.same (step_active (by simp) (by simp) hs) rfl
      cases hs
      refine ⟨⟨fun hl => (detected_iff hg rfl).mp (hl.detected w phys val rfl), fun hok => ⟨hsame.exact, ?_⟩⟩,
        fun _ => hsame⟩
      intro w' phys' val' heq
      cases heq
      exact (detected_iff hg rfl).mpr hok
    | candRegister | registerSljit | restore | shadowDevice | shadowNative | shadowEnd =>
      simp only [Host.step, map_eq_some_iff] at hstep
      obtain ⟨⟨s', called⟩, hs, rfl⟩ := hstep
      have hsame : Host.Good { h with loader := s' } := hg.same (step_active (by simp) (by simp) hs) rfl
      rw [lawful_iff_exact (by simp)]
      exact ⟨iff_of_true hsame.exact trivial, fun _ => hsame⟩
  | ret pump =>
    rw [lawful_iff_exact (by simp)]
    dsimp only [Host.step] at hstep
    split at hstep
    next fiber cand htop =>
      cases pump with
      | true =>
        cases hstep
        -- one call fewer, and as many entries as before
        have hnot : ¬ Host.Exact { h with frames := markReturned h.fiber h.frames } := by
          intro hexact
          have hlen := (hg.exact.symm.trans hexact).length_eq
          have := length_filter_markReturned htop rfl
          simp only [Host.live, length_map] at hlen
          omega
        exact ⟨iff_of_false hnot fun hok => Bool.noConfusion hok.1, fun hexact => absurd hexact hnot⟩
      | false =>
        cases hstep
        have hiff := pop_exact_iff hg htop
        refine ⟨hiff.trans ⟨fun heq => ⟨rfl, ?_⟩, fun hok => ?_⟩, fun hexact =>
          ⟨hexact, fun g hmem => hg.running g (eraseP_subset hmem)⟩⟩
        · rw [htop]
          exact heq
        · have := hok.2
          rwa [htop] at this
    next => cases hstep
  | leave =>
    -- no check is going on
    dsimp only [Host.step] at hstep
    split at hstep
    next htop => exact absurd (hg.running _ (mem_of_find?_eq_some htop)) (by simp)
    next => cases hstep
  | escape n =>
    cases hstep
    rw [lawful_iff_exact (by simp)]
    refine ⟨(exact_of_sublist hg (abandon_sublist ..)).trans abandon_eq_iff, fun hexact => hg.same rfl ?_⟩
    exact (abandon_sublist ..).eq_of_length ((exact_of_sublist hg (abandon_sublist ..)).mp hexact)
  | switch fiber =>
    cases hstep
    rw [lawful_iff_exact (by simp)]
    exact ⟨iff_of_true hg.exact trivial, fun _ => hg.same rfl rfl⟩
  | destroy fiber =>
    dsimp only [Host.step] at hstep
    split_ifs at hstep
    cases hstep
    rw [lawful_iff_exact (by simp)]
    refine ⟨(exact_of_sublist hg filter_sublist).trans ?_, fun hexact => hg.same rfl ?_⟩
    · rw [length_filter_eq_length_iff]
      simp [Ok]
    · exact filter_sublist.eq_of_length ((exact_of_sublist hg filter_sublist).mp hexact)

end

/-! ## 5. Histories -/

def bootHost (ram : Nat → Byte) (candCap : Nat) : Host where
  loader := { bootState with mem := { bootState.mem with ram := ram }, candCap := candCap }
  fiber := 0
  frames := []

/-- **Self-modification is detected**, and the active stack is the running functions, in a history
exactly if no call is the 65th, the function that returns is the one pushed last, no check stands
between `fn` and the pop, and no call is abandoned. -/
theorem self_modification_iff (ram : Nat → Byte) (candCap : Nat) (ops : List HostOp) :
    Always Lawful ops (bootHost ram candCap) ↔ Always (fun op h _ => Ok op h) ops (bootHost ram candCap) := by
  have hall : ∀ (ops : List HostOp) (h : Host), h.Good →
      (Always Lawful ops h ↔ Always (fun op h _ => Ok op h) ops h) := by
    intro ops
    induction ops with
    | nil => exact fun _ _ => Iff.rfl
    | cons op ops ih =>
      intro h hg
      refine forall_congr' fun h' => forall_congr' fun hstep => ?_
      obtain ⟨hiff, hgood⟩ := lawful_iff hg hstep
      exact ⟨fun ⟨hl, hrest⟩ => ⟨hiff.mp hl, (ih h' (hgood hl)).mp hrest⟩,
        fun ⟨hok, hrest⟩ => ⟨hiff.mpr hok, (ih h' (hgood (hiff.mpr hok))).mpr hrest⟩⟩
  exact hall ops _ ⟨.refl _, nofun⟩

/-- The word at `0x20000` -/
def otherWord : CodeRange := ⟨0x20000, 4, by decide⟩

/-- Two shards, then `ops`, then a call of the second and a store into its code: the calls under way, the
last one first, and what has become of the two -/
def storeInto (ops : List HostOp) : Option (List Nat × List EntryState) :=
  let all := [.loader (.registerSljit 0x10000 oneWord 0#32), .loader (.registerSljit 0x20000 otherWord 0#32)] ++
    ops ++ [.loader (.dispatch runNative 0x80020000#32), .loader (.store .word 0x20000 1#32)]
  (all.foldl (fun h op => h.bind fun h => h.step op) (some (bootHost (fun _ => 0#8) 4))).map fun h =>
    (h.live, h.loader.cands.map Candidate.state)

/-- Under 64 calls the second shard is the 65th and is not pushed, so that it stays valid when it writes its
own code. It does not take depth: 64 calls that were given up fill the stack just as well. -/
theorem full_stack_misses_store :
    storeInto (List.replicate 64 (.loader (.dispatch runNative 0x80010000#32))) =
        some (1 :: List.replicate 64 0, [.valid, .valid]) ∧
      storeInto (List.replicate 64 [.loader (.dispatch runNative 0x80010000#32), .escape 1]).flatten =
        some ([1], [.valid, .valid]) ∧
      storeInto [] = some ([1], [.valid, .blacklist]) := by
  decide +kernel

end PsxRecomp.Overlay
