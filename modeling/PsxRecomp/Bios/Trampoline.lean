import PsxRecomp.Machine.Cpu

/-!
# `Bios/Trampoline.lean` — the dispatch loop and its call contract

`psx_dispatch_impl`, as `FullFunctionEmitter::emit_dispatch` writes it: dispatch an address, look at
where the guest went, and return to the C caller, go on, or begin to unwind. A suspended C continuation
may run only if the guest came back to it, that is, with the return address and the stack pointer of the
call; otherwise the frames unwind (`g_psx_call_bail`) until a call site matches or the outermost loop
takes over.

What a dispatched function does is not fixed. It may change the CPU, start a bail, check the contract of
a direct call (`psx_call_contract`) and dispatch again, to any depth (`Run`). A run carries the list of
all turns of all loops of its call tree.
-/

set_option autoImplicit false

namespace PsxRecomp.Trampoline

/-- The CPU, `g_psx_call_bail` and `g_psx_dispatch_depth`. -/
structure State (M : Type) where
  cpu : Cpu M
  bail : Bool
  depth : Nat

namespace State
variable {M : Type} (s : State M)

def pc : Word := s.cpu.pc
def sp : Word := s.cpu.gpr 29#5
def ra : Word := s.cpu.gpr 31#5

def setPc (v : Word) : State M := { s with cpu := { s.cpu with pc := v } }

end State

/-- `((a ^ b) & 0x1FFFFFFF) == 0`: one address up to the segment. -/
def SameAddr (a b : Word) : Prop := (a ^^^ b) &&& 0x1FFFFFFF#32 = 0#32

instance (a b : Word) : Decidable (SameAddr a b) := inferInstanceAs (Decidable (_ = _))

@[simp] theorem SameAddr.refl (a : Word) : SameAddr a a := by simp [SameAddr]

section
variable {M : Type}

/-! ## 1. One turn of the loop -/

inductive Next (M : Type) where
  | again (addr : Word) (s : State M)
  | ret (s : State M)

/-- The tests of `psx_dispatch_impl` after a function came back, in their order. -/
def next (outermost : Bool) (stop sp : Word) (s : State M) : Next M :=
  if s.bail then
    if stop ≠ 0#32 ∧ SameAddr s.pc stop ∧ s.sp = sp then
      .ret { s.setPc 0#32 with bail := false, depth := s.depth - 1 }
    else if !outermost then .ret { s with depth := s.depth - 1 }
    else .again s.pc { s with bail := false }
  else if s.pc = 0#32 then
    if stop ≠ 0#32 ∧ (s.sp ≠ sp ∨ ¬ SameAddr s.ra stop) then
      -- the guest did not return here: its true target is in `$ra`
      if outermost then .again s.ra (s.setPc s.ra)
      else .ret { s.setPc s.ra with bail := true, depth := s.depth - 1 }
    else .ret { s with depth := s.depth - 1 }
  else if stop ≠ 0#32 ∧ s.pc = stop then
    -- the same address in another frame is not this call's return
    if s.sp ≠ sp then .again s.pc s
    else .ret { s.setPc 0#32 with depth := s.depth - 1 }
  else .again s.pc s

/-- The end of `psx_dispatch_check_return_boundary`, after the interrupt check. -/
def boundary (stop : Word) (s : State M) : State M :=
  if stop ≠ 0#32 ∧ SameAddr s.pc stop then s.setPc 0#32 else s

/-- `psx_call_contract`: whether the caller has to return at once, and the state -/
def callContract (siteRa siteSp : Word) (s : State M) : Bool × State M :=
  if s.bail then
    if SameAddr s.pc siteRa ∧ s.sp = siteSp then (false, { s.setPc 0#32 with bail := false })
    else (true, s)
  else if s.sp ≠ siteSp ∨ ¬ SameAddr s.ra siteRa then
    (true, { s.setPc s.ra with bail := true })
  else (false, s)

/-! ## 2. Runs -/

/-- A turn of a loop: which loop it is, and the state in which the function came back. -/
structure Turn (M : Type) where
  outermost : Bool
  stop : Word
  sp : Word
  after : State M

/-- What runs: a dispatched function, the loop, `psx_dispatch` or `psx_dispatch_call`, an interrupt
check. The loop is told the state in which it decides to return. -/
inductive Act (M : Type) where
  | body
  | loop (outermost : Bool) (stop sp addr : Word) (arrival : State M)
  | dispatch (addr stop : Word) (arrival : State M)
  | irq

inductive Run : Act M → State M → List (Turn M) → State M → Prop
  | done (s : State M) : Run .body s [] s
  /-- Change the CPU, or start a bail. -/
  | act {s s₁ s' : State M} {tr : List (Turn M)} : s₁.depth = s.depth →
      (s.bail = true → s₁.bail = true) → Run .body s₁ tr s' → Run .body s tr s'
  /-- A direct call came back. -/
  | contract {s s' : State M} {tr : List (Turn M)} (siteRa siteSp : Word) :
      Run .body (callContract siteRa siteSp s).2 tr s' → Run .body s tr s'
  | call {s s₁ s' arr : State M} {tr tr' : List (Turn M)} {addr stop : Word} :
      Run (.dispatch addr stop arr) s tr s₁ → Run .body s₁ tr' s' → Run .body s (tr ++ tr') s'
  | again {s s₁ s₂ s' arr : State M} {tr tr' : List (Turn M)} {o : Bool} {stop sp addr a : Word} :
      Run .body (s.setPc 0#32) tr s₁ → next o stop sp s₁ = .again a s₂ →
      Run (.loop o stop sp a arr) s₂ tr' s' →
      Run (.loop o stop sp addr arr) s (tr ++ ⟨o, stop, sp, s₁⟩ :: tr') s'
  | retInner {s s₁ s₂ : State M} {tr : List (Turn M)} {stop sp addr : Word} :
      Run .body (s.setPc 0#32) tr s₁ → next false stop sp s₁ = .ret s₂ →
      Run (.loop false stop sp addr s₁) s (tr ++ [⟨false, stop, sp, s₁⟩]) s₂
  /-- The outermost loop checks for interrupts before it returns. -/
  | retOuter {s s₁ s₂ s₃ : State M} {tr tr' : List (Turn M)} {stop sp addr : Word} :
      Run .body (s.setPc 0#32) tr s₁ → next true stop sp s₁ = .ret s₂ → Run .irq s₂ tr' s₃ →
      Run (.loop true stop sp addr s₁) s (tr ++ ⟨true, stop, sp, s₁⟩ :: tr') (boundary stop s₃)
  | dispatch {s s' arr : State M} {tr : List (Turn M)} {addr stop : Word} :
      Run (.loop (s.depth = 0) stop s.sp addr arr) { s with depth := s.depth + 1 } tr s' →
      Run (.dispatch addr stop arr) s tr s'
  /-- Nothing is delivered. -/
  | idle (s : State M) : Run .irq s [] s
  /-- The handler is dispatched as an outermost context of its own; afterwards the depth, and such
  registers as the handler did not restore, are put back. -/
  | deliver {s s₁ arr : State M} {tr : List (Turn M)} {handler : Word} (cpu : Cpu M) :
      Run (.dispatch handler 0#32 arr) { s with bail := false, depth := 0 } tr s₁ →
      Run .irq s tr ⟨cpu, s₁.bail, s.depth⟩

/-! ## 3. What one turn decides -/

/-- The guest is back at the call: at its return address, with its stack pointer. A function that
returned without setting `pc` leaves the address in `$ra`. -/
def Arrived (stop sp : Word) (s : State M) : Prop :=
  (SameAddr s.pc stop ∨ s.pc = 0#32 ∧ SameAddr s.ra stop) ∧ s.sp = sp

/-- The turn goes on although the guest's `pc` is the return address. -/
def Turn.missed (t : Turn M) : Prop :=
  t.stop ≠ 0#32 ∧ t.after.pc ≠ 0#32 ∧ SameAddr t.after.pc t.stop ∧ t.after.sp = t.sp ∧
    ∃ a s, next t.outermost t.stop t.sp t.after = .again a s

/-- A guest that is back without a bail is back in the segment it was called from. -/
def Turn.segmentOk (t : Turn M) : Prop :=
  t.stop ≠ 0#32 → t.after.bail = false → t.after.pc ≠ 0#32 → SameAddr t.after.pc t.stop →
    t.after.sp = t.sp → t.after.pc = t.stop

theorem missed_iff (t : Turn M) : ¬ t.missed ↔ t.segmentOk := by
  constructor
  · intro h hstop hbail hpc hsame hsp
    by_contra hne
    refine h ⟨hstop, hpc, hsame, hsp, t.after.pc, t.after, ?_⟩
    simp [next, hbail, hpc, hne]
  · rintro h ⟨hstop, hpc, hsame, hsp, a, s, hnext⟩
    cases hbail : t.after.bail with
    | true => simp [next, hbail, hstop, hsame, hsp] at hnext
    | false =>
      have heq := h hstop hbail hpc hsame hsp
      simp [next, hbail, heq, hstop, hsp] at hnext

section
variable {o : Bool} {stop sp a : Word} {s s' : State M}

theorem next_again_depth (h : next o stop sp s = .again a s') : s'.depth = s.depth := by
  unfold next at h
  split_ifs at h <;> cases h <;> rfl

theorem next_ret_depth (h : next o stop sp s = .ret s') : s'.depth = s.depth - 1 := by
  unfold next at h
  split_ifs at h <;> cases h <;> rfl

theorem next_ret_outermost (h : next true stop sp s = .ret s') : s'.bail = false := by
  unfold next at h
  split_ifs at h with hb harr ho hpc hviol ho <;> cases h
  · rfl
  · cases ho
  · exact absurd rfl ho
  all_goals exact eq_false_of_ne_true hb

theorem next_ret_arrived (hstop : stop ≠ 0#32) (h : next o stop sp s = .ret s')
    (hbail : s'.bail = false) : Arrived stop sp s := by
  unfold next at h
  split_ifs at h with hb harr ho hpc hviol ho' hstop' hsp <;> cases h
  · exact ⟨.inl harr.2.1, harr.2.2⟩
  · rw [hb] at hbail
    cases hbail
  · cases hbail
  · simp only [ne_eq, hstop, not_false_eq_true, true_and, not_or, not_not] at hviol
    exact ⟨.inr ⟨hpc, hviol.2⟩, hviol.1⟩
  · rw [ne_eq, not_not] at hsp
    exact ⟨.inl (by rw [hstop'.2]; exact .refl _), hsp⟩

end

@[simp] theorem callContract_depth (siteRa siteSp : Word) (s : State M) :
    (callContract siteRa siteSp s).2.depth = s.depth := by
  unfold callContract
  split_ifs <;> rfl

@[simp] theorem boundary_depth (stop : Word) (s : State M) : (boundary stop s).depth = s.depth := by
  unfold boundary
  split_ifs <;> rfl

@[simp] theorem boundary_bail (stop : Word) (s : State M) : (boundary stop s).bail = s.bail := by
  unfold boundary
  split_ifs <;> rfl

/-! ## 4. Whole runs -/

def Leaves : Act M → State M → State M → Prop
  | .body, s, s' => s'.depth = s.depth
  | .loop o stop sp _ arr, s, s' => s'.depth = s.depth - 1 ∧ (o = true → s'.bail = false) ∧
      (stop ≠ 0#32 → s'.bail = false → Arrived stop sp arr)
  | .dispatch _ stop arr, s, s' => s'.depth = s.depth ∧ (s.depth = 0 → s'.bail = false) ∧
      (stop ≠ 0#32 → s'.bail = false → Arrived stop s.sp arr)
  | .irq, s, s' => s'.depth = s.depth ∧ (s.bail = false → s'.bail = false)

theorem Run.leaves {act : Act M} {s s' : State M} {tr : List (Turn M)} (h : Run act s tr s') :
    Leaves act s s' := by
  -- over the call tree: a nested dispatch is a smaller run
  induction h with
  | done s => exact rfl
  | act hd _ _ ih => exact ih.trans hd
  | contract ra sp _ ih => exact ih.trans (callContract_depth ra sp _)
  | call _ _ ihd ihb => exact ihb.trans ihd.1
  | again _ hnext _ ihb ihl =>
    obtain ⟨hdepth, hout, harr⟩ := ihl
    rw [next_again_depth hnext, ihb] at hdepth
    exact ⟨hdepth, hout, harr⟩
  | retInner _ hnext ihb =>
    refine ⟨?_, fun h => (by cases h), fun hstop hbail => next_ret_arrived hstop hnext hbail⟩
    rw [next_ret_depth hnext, ihb]
    rfl
  | retOuter _ hnext _ ihb ihi =>
    have hbail := next_ret_outermost hnext
    refine ⟨?_, fun _ => ?_, fun hstop _ => next_ret_arrived hstop hnext hbail⟩
    · rw [boundary_depth, ihi.1, next_ret_depth hnext, ihb]
      rfl
    · rw [boundary_bail]
      exact ihi.2 hbail
  | dispatch _ ih =>
    obtain ⟨hdepth, hout, harr⟩ := ih
    exact ⟨hdepth, fun h0 => hout (by simpa using h0), harr⟩
  | idle s => exact ⟨rfl, id⟩
  | deliver cpu _ ih => exact ⟨rfl, fun _ => ih.2.1 rfl⟩

/-- The contract of `psx_dispatch_call`, over a run of it. -/
structure Contract (stop : Word) (arrival s s' : State M) (tr : List (Turn M)) : Prop where
  /-- It returns without a bail only to a guest that is back. -/
  arrived : s'.bail = false → Arrived stop s.sp arrival
  /-- No loop of the call tree dispatches a return address it should have returned to. -/
  returns : ∀ t ∈ tr, ¬ t.missed
  depth : s'.depth = s.depth
  outermost : s.depth = 0 → s'.bail = false

/-- **The call contract** holds of exactly the runs in which guests come back in the segment they
were called from. -/
theorem call_contract_iff {addr stop : Word} {arr s s' : State M} {tr : List (Turn M)}
    (hstop : stop ≠ 0#32) (h : Run (.dispatch addr stop arr) s tr s') :
    Contract stop arr s s' tr ↔ ∀ t ∈ tr, t.segmentOk := by
  obtain ⟨hdepth, hout, harr⟩ := h.leaves
  constructor
  · intro hc t ht
    exact (missed_iff t).mp (hc.returns t ht)
  · intro hok
    exact ⟨harr hstop, fun t ht => (missed_iff t).mpr (hok t ht), hdepth, hout⟩

end

/-! ## 5. Two runs -/

def atRest : State Word := ⟨zeroCpu 0, false, 0⟩

theorem run_setPc (s : State Word) (pc : Word) : Run .body s [] (s.setPc pc) := by
  refine .act ?_ ?_ (.done (s.setPc pc))
  · rfl
  · exact id

/-- A call that comes back to its return address. -/
theorem call_contract_returns :
    ∃ arr s' tr, Run (.dispatch 0x80010000#32 0x80020008#32 arr) atRest tr s' ∧
      Contract 0x80020008#32 arr atRest s' tr := by
  have hrun : Run (.dispatch 0x80010000#32 0x80020008#32 _) atRest _ _ :=
    .dispatch (.retOuter (run_setPc _ 0x80020008#32) rfl (.idle _))
  refine ⟨_, _, _, hrun, (call_contract_iff (by decide) hrun).mpr ?_⟩
  intro t ht
  simp only [List.nil_append, List.mem_singleton] at ht
  subst ht
  intro _ _ _ _ _
  rfl

/-- The same function called through its uncached address: the return is dispatched. -/
theorem call_contract_misses_segment :
    ∃ arr s' tr, Run (.dispatch 0x80010000#32 0xA0020008#32 arr) atRest tr s' ∧
      ¬ Contract 0xA0020008#32 arr atRest s' tr := by
  have hrun : Run (.dispatch 0x80010000#32 0xA0020008#32 _) atRest _ _ :=
    .dispatch (.again (run_setPc _ 0x80020008#32) rfl
      (.retOuter (run_setPc _ 0xA0020008#32) rfl (.idle _)))
  refine ⟨_, _, _, hrun, fun hc => hc.returns _ (List.mem_append_right _ List.mem_cons_self) ?_⟩
  exact ⟨by decide, by decide, by decide, rfl, _, _, rfl⟩

end PsxRecomp.Trampoline
