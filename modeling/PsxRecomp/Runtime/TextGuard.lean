import PsxRecomp.Lib.Runs
import PsxRecomp.Runtime.Ram

/-!
# `Runtime/TextGuard.lean` — native code over unmodified text

`runtime/src/memory.c` keeps a reference image of the boot executable and marks the pages in which a
store wrote something else (`text_guard_note_write`). `dirty_ram_text_native_ok` answers whether the
compiled function at an address may run: it trusts an unmarked page, and compares 256 bytes otherwise.
`dirty_ram_text_bless` moves the reference along with an intended patch. `dirty_ram_dispatch_inner`
(`dirty_ram_interp.c`) asks it before it calls compiled code, and in one branch calls compiled code all
the same.
-/

set_option autoImplicit false

namespace PsxRecomp.TextGuard

open Ram

/-! ## 1. The guard -/

/-- The range of the registered image, as `dirty_ram_register_text_image` leaves it. -/
structure Range where
  lo : Nat
  hi : Nat
  lo_lt_hi : lo < hi
  hi_le : hi ≤ ramSize

/-- The two environment switches that make pages look dirty. -/
structure Config where
  forceInterp : Bool := false
  shellwinInterp : Bool := false

structure State where
  ram : Nat → Byte
  /-- `text_ref_image`, by physical address -/
  ref : Nat → Byte
  dirty : Nat → Bool
  modified : Nat → Bool
  diverged : Nat → Bool

def mark (bitmap : Nat → Bool) (page : Nat) : Nat → Bool := Function.update bitmap page true

@[simp] theorem mark_self (bitmap : Nat → Bool) (page : Nat) : mark bitmap page page = true := by
  simp [mark]

theorem mark_of_marked {bitmap : Nat → Bool} {page q : Nat} (h : bitmap q = true) :
    mark bitmap page q = true := by
  by_cases hq : q = page
  · subst hq
    exact mark_self _ _
  · simp [mark, hq, h]

section
variable (I : Range) (cfg : Config) (s : State)

def isDirty (phys : Nat) : Bool :=
  if ramSize ≤ phys then false
  else if cfg.forceInterp ∧ 0x10000 ≤ phys then true
  else if cfg.shellwinInterp ∧ 0x30000 ≤ phys ∧ phys ≤ 0x5AFFF then true
  else s.dirty (pageOf phys)

/-- `dirty_ram_mark_kernel_write` -/
def markKernelWrite (phys : Nat) : State :=
  if 0x10000 ≤ phys then s else { s with dirty := mark s.dirty (pageOf phys) }

def matchesRef (phys : Nat) (bytes : List Byte) : Bool :=
  (List.range bytes.length).all fun i => s.ref (phys + i) = bytes.getD i 0

/-- `text_guard_note_write` -/
def noteWrite (phys : Nat) (bytes : List Byte) : State :=
  if phys < I.lo ∨ I.hi < phys + bytes.length then s
  else if matchesRef s phys bytes then s
  else { s with modified := mark s.modified (pageOf phys) }

/-- The RAM part of `psx_write_word_raw`, `psx_write_half_raw` and `psx_write_byte_raw`. -/
def storeRam (phys : Nat) (bytes : List Byte) : State :=
  let s := noteWrite I (markKernelWrite s phys) phys bytes
  { s with ram := write s.ram phys bytes }

def store (w : Width) (isolated : Bool) (addr val : Word) : State :=
  match storeTarget isolated addr with
  | some phys => storeRam I s phys (w.bytes val)
  | none => s

/-- `dirty_ram_mark_executable_range` -/
def markExecutableRange (phys len : Nat) : State :=
  if len = 0 ∨ ramSize ≤ phys then s
  else
    let last := min (phys + len - 1) (ramSize - 1)
    { s with dirty := fun p => s.dirty p || (pageOf phys ≤ p && p ≤ pageOf last) }

/-- `dirty_ram_text_bless` -/
def bless (phys : Nat) (bytes : List Byte) : State :=
  if bytes.length = 0 ∨ I.hi ≤ phys ∨ phys + bytes.length ≤ I.lo then s
  else
    let lo := max phys I.lo
    let hi := min (phys + bytes.length) I.hi
    if (List.range (hi - lo)).all fun i => s.ref (lo + i) = bytes.getD (lo + i - phys) 0 then s
    else
      { s with
        ref := fun a => if lo ≤ a ∧ a < hi then bytes.getD (a - phys) 0 else s.ref a
        diverged := fun p => s.diverged p && !(pageOf lo ≤ p && p ≤ pageOf (hi - 1)) }

/-- A patch of the translation layer: it writes RAM directly and blesses what it wrote. -/
def patch (phys : Nat) (bytes : List Byte) : State :=
  bless I { s with ram := write s.ram phys bytes } phys bytes

def windowEnd (phys : Nat) : Nat := min (phys + 256) I.hi

/-- The comparison of `dirty_ram_text_native_ok`. -/
def windowMatches (phys : Nat) : Bool :=
  (List.range (windowEnd I phys - phys)).all fun i => s.ram (phys + i) = s.ref (phys + i)

/-- `dirty_ram_text_native_ok`: the answer, and the sticky bit it may set -/
def nativeOk (phys : Nat) : Bool × State :=
  if phys < I.lo ∨ I.hi ≤ phys then (!isDirty cfg s phys, s)
  else if s.diverged (pageOf phys) then (false, s)
  else if !s.modified (pageOf phys) && !isDirty cfg s phys then (true, s)
  else if windowMatches I s phys then (true, s)
  else (false, { s with diverged := mark s.diverged (pageOf phys) })

end

/-! ## 2. Histories -/

inductive Op where
  | store (w : Width) (isolated : Bool) (addr val : Word)
  | markExecutable (phys len : Nat)
  | patch (phys : Nat) (bytes : List Byte)
  | query (phys : Nat)

section
variable (I : Range) (cfg : Config)

def step (s : State) : Op → State
  | .store w isolated addr val => store I s w isolated addr val
  | .markExecutable phys len => markExecutableRange s phys len
  | .patch phys bytes => patch I s phys bytes
  | .query phys => (nativeOk I cfg s phys).2

structure Fresh (s : State) : Prop where
  same : ∀ a, I.lo ≤ a → a < I.hi → s.ram a = s.ref a
  dirty : ∀ p, s.dirty p = false
  modified : ∀ p, s.modified p = false
  diverged : ∀ p, s.diverged p = false

/-- A store that changes a byte of the image lies inside the image, and that byte is in the page the
store starts in. -/
def StoreOk (s : State) (phys : Nat) (bytes : List Byte) : Prop :=
  ∀ i < bytes.length, I.lo ≤ phys + i → phys + i < I.hi → s.ref (phys + i) ≠ bytes.getD i 0 →
    I.lo ≤ phys ∧ phys + bytes.length ≤ I.hi ∧ pageOf (phys + i) = pageOf phys

def OpOk (s : State) : Op → Prop
  | .store w isolated addr val =>
    ∀ phys, storeTarget isolated addr = some phys → StoreOk I s phys (w.bytes val)
  | _ => True

/-- The states after histories whose steps all meet the condition. -/
def Reached (s₀ : State) : State → Prop :=
  Runs.Reached (fun op s => some (step I cfg s op)) (fun op s => OpOk I s op) (· = s₀)

end

/-! ## 3. What the marks stand for -/

section
variable {I : Range} {cfg : Config} {s : State} {phys len : Nat} {bytes : List Byte}

/-- Where RAM differs from the reference, the page is marked. -/
def Tracked (I : Range) (s : State) : Prop :=
  ∀ a, I.lo ≤ a → a < I.hi → s.ram a ≠ s.ref a → s.modified (pageOf a) = true

theorem Fresh.tracked (h : Fresh I s) : Tracked I s := by
  intro a hlo hhi hne
  exact absurd (h.same a hlo hhi) hne

theorem windowMatches_iff : windowMatches I s phys = true ↔
    ∀ a, phys ≤ a → a < windowEnd I phys → s.ram a = s.ref a := by
  simp only [windowMatches, List.all_eq_true, List.mem_range, decide_eq_true_eq]
  constructor
  · intro h a ha ha'
    have := h (a - phys) (by omega)
    rwa [Nat.add_sub_cancel' ha] at this
  · intro h i hi
    exact h (phys + i) (by omega) (by omega)

theorem Tracked.congr {s' : State} (h : Tracked I s) (hram : s'.ram = s.ram) (href : s'.ref = s.ref)
    (hmod : s'.modified = s.modified) : Tracked I s' := by
  intro a hlo hhi hne
  rw [hmod]
  rw [hram, href] at hne
  exact h a hlo hhi hne

@[simp] theorem markKernelWrite_kept : (markKernelWrite s phys).ram = s.ram ∧
    (markKernelWrite s phys).ref = s.ref ∧ (markKernelWrite s phys).modified = s.modified := by
  rw [markKernelWrite]
  split_ifs <;> exact ⟨rfl, rfl, rfl⟩

@[simp] theorem noteWrite_kept : (noteWrite I s phys bytes).ram = s.ram ∧
    (noteWrite I s phys bytes).ref = s.ref := by
  rw [noteWrite]
  split_ifs <;> exact ⟨rfl, rfl⟩

theorem noteWrite_modified_of {p : Nat} (h : s.modified p = true) :
    (noteWrite I s phys bytes).modified p = true := by
  rw [noteWrite]
  split_ifs
  · exact h
  · exact h
  · exact mark_of_marked h

theorem Tracked.storeRam (h : Tracked I s) (hs : StoreOk I s phys bytes) :
    Tracked I (storeRam I s phys bytes) := by
  intro a hlo hhi hne
  simp only [TextGuard.storeRam, noteWrite_kept, markKernelWrite_kept] at hne ⊢
  by_cases ha : phys ≤ a ∧ a < phys + bytes.length
  · -- a byte the store wrote: it differs from the reference, so the store was noted
    obtain ⟨i, rfl⟩ := Nat.exists_eq_add_of_le ha.1
    have hi : i < bytes.length := by omega
    rw [write_of_mem ha.1 ha.2, Nat.add_sub_cancel_left] at hne
    obtain ⟨hlo', hhi', hpage⟩ := hs i hi hlo hhi hne.symm
    rw [hpage]
    rw [noteWrite, if_neg (by omega), if_neg]
    · exact mark_self _ _
    · simp only [matchesRef, markKernelWrite_kept]
      exact fun h => hne.symm (of_decide_eq_true (List.all_eq_true.mp h i (List.mem_range.mpr hi)))
  · rw [write_of_not_mem ha] at hne
    refine noteWrite_modified_of ?_
    rw [markKernelWrite_kept.2.2]
    exact h a hlo hhi hne

theorem Tracked.markExecutable (h : Tracked I s) : Tracked I (markExecutableRange s phys len) := by
  rw [markExecutableRange]
  split_ifs <;> exact h.congr rfl rfl rfl

theorem bless_kept : (bless I s phys bytes).ram = s.ram ∧
    (bless I s phys bytes).modified = s.modified := by
  simp only [bless]
  split_ifs <;> exact ⟨rfl, rfl⟩

theorem bless_ref_of_mem {a : Nat} (hlo : I.lo ≤ a) (hhi : a < I.hi) (ha : phys ≤ a)
    (ha' : a < phys + bytes.length) : (bless I s phys bytes).ref a = bytes.getD (a - phys) 0 := by
  simp only [bless]
  split_ifs with hout hsame
  · omega
  · have h := List.all_eq_true.mp hsame (a - max phys I.lo) (by rw [List.mem_range]; omega)
    have hback : max phys I.lo + (a - max phys I.lo) = a := by omega
    rw [decide_eq_true_eq, hback] at h
    exact h
  · exact if_pos (by omega)

theorem bless_ref_of_not_mem {a : Nat} (ha : ¬ (phys ≤ a ∧ a < phys + bytes.length)) :
    (bless I s phys bytes).ref a = s.ref a := by
  simp only [bless]
  split_ifs
  · rfl
  · rfl
  · exact if_neg (by omega)

theorem Tracked.patch (h : Tracked I s) : Tracked I (patch I s phys bytes) := by
  intro a hlo hhi hne
  rw [TextGuard.patch, bless_kept.2]
  rw [TextGuard.patch, bless_kept.1] at hne
  by_cases ha : phys ≤ a ∧ a < phys + bytes.length
  · rw [bless_ref_of_mem hlo hhi ha.1 ha.2] at hne
    exact absurd (write_of_mem ha.1 ha.2) hne
  · rw [bless_ref_of_not_mem ha] at hne
    have hram : write s.ram phys bytes a = s.ram a := write_of_not_mem ha
    exact h a hlo hhi fun heq => hne (hram.trans heq)

/-- A query sets the sticky bit at most. -/
theorem nativeOk_kept : (nativeOk I cfg s phys).2.ram = s.ram ∧ (nativeOk I cfg s phys).2.ref = s.ref ∧
    (nativeOk I cfg s phys).2.modified = s.modified := by
  rw [nativeOk]
  split_ifs <;> exact ⟨rfl, rfl, rfl⟩

theorem Tracked.query (h : Tracked I s) : Tracked I (nativeOk I cfg s phys).2 :=
  h.congr nativeOk_kept.1 nativeOk_kept.2.1 nativeOk_kept.2.2

theorem Tracked.store (h : Tracked I s) {w : Width} {isolated : Bool} {addr val : Word}
    (hop : OpOk I s (.store w isolated addr val)) : Tracked I (store I s w isolated addr val) := by
  unfold TextGuard.store
  cases ht : storeTarget isolated addr with
  | none => exact h
  | some phys => exact h.storeRam (hop phys ht)

/-- Where RAM differs from the reference the page stays marked, if a store that changes guarded text
lies inside the image and in one page. -/
theorem Tracked.step (h : Tracked I s) {op : Op} (hop : OpOk I s op) :
    Tracked I (step I cfg s op) := by
  cases op with
  | store w isolated addr val => exact h.store hop
  | markExecutable phys len => exact h.markExecutable
  | patch phys bytes => exact h.patch
  | query phys => exact h.query

theorem Reached.tracked {s₀ : State} (h₀ : Fresh I s₀) (h : Reached I cfg s₀ s) : Tracked I s := by
  refine Runs.Reached.invariant (I := Tracked I) ?_ ?_ h
  · rintro s rfl
    exact h₀.tracked
  · rintro op s _ ht hop ⟨⟩
    exact ht.step hop

/-- A store of one byte cannot reach over an edge. -/
theorem opOk_byte (isolated : Bool) (addr val : Word) : OpOk I s (.store .byte isolated addr val) := by
  intro phys _ i hi hlo hhi _
  obtain rfl : i = 0 := by simpa [Width.size] using hi
  exact ⟨hlo, hhi, rfl⟩

end

/-! ## 4. The guard over histories -/

section
variable {I : Range} {cfg : Config} {s₀ s : State} {phys : Nat}

/-- An entry whose page is not flagged has no marked page in its window. -/
def QueryOk (I : Range) (cfg : Config) (s : State) (phys : Nat) : Prop :=
  s.modified (pageOf phys) = false → isDirty cfg s phys = false →
    ∀ a, phys ≤ a → a < windowEnd I phys → s.modified (pageOf a) = false

theorem windowMatches_of_nativeOk (ht : Tracked I s) (hlo : I.lo ≤ phys) (hhi : phys < I.hi)
    (hq : QueryOk I cfg s phys) (hok : (nativeOk I cfg s phys).1 = true) :
    ∀ a, phys ≤ a → a < windowEnd I phys → s.ram a = s.ref a := by
  rw [nativeOk, if_neg (by omega)] at hok
  split_ifs at hok with hdiv hfast hwin
  · rw [Bool.and_eq_true, Bool.not_eq_true', Bool.not_eq_true'] at hfast
    intro a ha ha'
    have hunmarked := hq hfast.1 hfast.2 a ha ha'
    have hend : windowEnd I phys ≤ I.hi := Nat.min_le_right _ _
    by_contra hne
    rw [ht a (by omega) (by omega) hne] at hunmarked
    cases hunmarked
  · exact windowMatches_iff.mp hwin

/-- **Native code runs over unmodified text only**, in every history whose steps meet the
condition. -/
theorem native_ok_unmodified (h₀ : Fresh I s₀) (h : Reached I cfg s₀ s) (hlo : I.lo ≤ phys)
    (hhi : phys < I.hi) (hq : QueryOk I cfg s phys) (hok : (nativeOk I cfg s phys).1 = true) :
    ∀ a, phys ≤ a → a < windowEnd I phys → s.ram a = s.ref a :=
  windowMatches_of_nativeOk (h.tracked h₀) hlo hhi hq hok

end

def twoPages : Range := ⟨0x10000, 0x12000, by decide, by decide⟩

def zeroState : State := ⟨fun _ => 0, fun _ => 0, fun _ => false, fun _ => false, fun _ => false⟩

theorem zeroState_fresh : Fresh twoPages zeroState :=
  ⟨fun _ _ _ => rfl, fun _ => rfl, fun _ => rfl, fun _ => rfl⟩

theorem pageOf_first {a : Nat} (h : 0x10000 ≤ a) (h' : a < windowEnd twoPages 0x10000) :
    pageOf a = 0x10 := by
  have hend : windowEnd twoPages 0x10000 = 0x10100 := rfl
  unfold pageOf
  omega

/-- A byte of the last entry is overwritten, its page marked executable, and the byte patched. -/
def patched : State :=
  patch twoPages (markExecutableRange (store twoPages zeroState .byte false 0x80011FF4#32 1#32) 0x11000 16)
    0x11FF4 [2#8]

theorem patched_reached : Reached twoPages {} zeroState patched :=
  .next (a := .patch 0x11FF4 [2#8]) (.next (a := .markExecutable 0x11000 16)
    (.next (a := .store .byte false 0x80011FF4#32 1#32) (.start rfl) (opOk_byte _ _ _) rfl) trivial rfl)
    trivial rfl

/-- That entry is compared and accepted with its new byte. The first entry is trusted: its page is
unmarked, and its window stays inside it. -/
theorem native_ok_unmodified_patched : patched.modified 0x11 = true ∧ patched.ram 0x11FF4 = 2#8 ∧
    ((nativeOk twoPages {} patched 0x11FF0).1 = true ∧
      ∀ a, 0x11FF0 ≤ a → a < windowEnd twoPages 0x11FF0 → patched.ram a = patched.ref a) ∧
    (nativeOk twoPages {} patched 0x10000).1 = true ∧
      ∀ a, 0x10000 ≤ a → a < windowEnd twoPages 0x10000 → patched.ram a = patched.ref a := by
  have hlast : (nativeOk twoPages {} patched 0x11FF0).1 = true := by decide
  have hfirst : (nativeOk twoPages {} patched 0x10000).1 = true := by decide
  refine ⟨by decide, by decide, ⟨hlast, ?_⟩, hfirst, ?_⟩
  · exact native_ok_unmodified zeroState_fresh patched_reached (by decide) (by decide)
      (fun hmod => absurd hmod (by decide)) hlast
  · refine native_ok_unmodified zeroState_fresh patched_reached (by decide) (by decide) ?_ hfirst
    intro hmod _ a ha ha'
    rwa [pageOf_first ha ha']

/-- One byte stored to the second page: an entry at the end of the first page is accepted. -/
theorem native_ok_window_crosses :
    let s := step twoPages {} zeroState (.store .byte false 0x80011000#32 1#32)
    (nativeOk twoPages {} s 0x10FF8).1 = true ∧ 0x11000 < windowEnd twoPages 0x10FF8 ∧
      s.ram 0x11000 ≠ s.ref 0x11000 := by
  refine ⟨?_, ?_, ?_⟩ <;> decide

/-! ## 5. Dispatching -/

/-- What the generated dispatch file knows of the game: its text range and its entries. -/
structure Game where
  textStart : Nat
  textEnd : Nat
  isEntry : Word → Bool

/-- `psx_game_address_in_text` -/
def Game.inText (G : Game) (addr : Word) : Bool :=
  G.textStart ≤ addr.toNat % 2 ^ 29 && addr.toNat % 2 ^ 29 < G.textEnd

/-- Where `dirty_ram_dispatch_inner` sends an address. -/
inductive Route where
  /-- the exception sentinel -/
  | sentinel
  /-- the statically compiled function -/
  | compiled
  /-- the overlay loader, then the interpreter -/
  | live
  deriving DecidableEq, Repr

section
variable (I : Range) (cfg : Config) (G : Game) (s : State) (addr : Word)

/-- The routing part of `dirty_ram_dispatch_inner` -/
def dispatchInner : Route × State :=
  if addr = 0x80000048#32 then (.sentinel, s)
  else
    let q := nativeOk I cfg s (addr.toNat % 2 ^ 29)
    if q.1 then (if G.isEntry addr then .compiled else .live, q.2)
    -- text that diverged: the compiled function is tried nevertheless
    else if G.inText addr then (if G.isEntry addr then .compiled else .live, q.2)
    else (.live, q.2)

/-- What a running game does to its text -/
inductive Event where
  | store (w : Width) (isolated : Bool) (addr val : Word)
  | markExecutable (phys len : Nat)
  | dispatch (addr : Word)

def play : Event → State → State
  | .store w isolated addr val, s => store I s w isolated addr val
  | .markExecutable phys len, s => markExecutableRange s phys len
  | .dispatch addr, s => (dispatchInner I cfg G s addr).2

def Event.Ok (s : State) : Event → Prop
  | .store w isolated addr val => OpOk I s (.store w isolated addr val)
  | _ => True

/-- The states after histories of a game whose stores all meet the condition. -/
def Played (s₀ : State) : State → Prop :=
  Runs.Reached (fun e s => some (play I cfg G e s)) (fun e s => e.Ok I s) (· = s₀)

variable {I cfg G s addr}

theorem dispatchInner_state : (dispatchInner I cfg G s addr).2 =
    if addr = 0x80000048#32 then s else (nativeOk I cfg s (addr.toNat % 2 ^ 29)).2 := by
  rw [dispatchInner]
  split_ifs <;> simp only <;> split_ifs <;> rfl

theorem dispatchInner_compiled_iff : (dispatchInner I cfg G s addr).1 = .compiled ↔
    addr ≠ 0x80000048#32 ∧ G.isEntry addr = true ∧
      ((nativeOk I cfg s (addr.toNat % 2 ^ 29)).1 = true ∨ G.inText addr = true) := by
  simp only [dispatchInner]
  split_ifs <;> simp_all

theorem Tracked.play (h : Tracked I s) {e : Event} (he : e.Ok I s) : Tracked I (play I cfg G e s) := by
  cases e with
  | store w isolated addr val => exact h.store he
  | markExecutable phys len => exact h.markExecutable
  | dispatch addr =>
    rw [TextGuard.play, dispatchInner_state]
    split_ifs
    · exact h
    · exact h.query

/-- Without patches the reference stays the registered image. -/
theorem play_ref (e : Event) : (play I cfg G e s).ref = s.ref := by
  cases e with
  | store w isolated addr val =>
    simp only [play, store]
    cases storeTarget isolated addr with
    | none => rfl
    | some phys => simp [storeRam]
  | markExecutable phys len =>
    simp only [play, markExecutableRange]
    split_ifs <;> rfl
  | dispatch addr =>
    rw [play, dispatchInner_state]
    split_ifs
    · rfl
    · exact nativeOk_kept.2.1

theorem Played.tracked {s₀ : State} (h₀ : Fresh I s₀) (h : Played I cfg G s₀ s) :
    Tracked I s ∧ s.ref = s₀.ref := by
  refine Runs.Reached.invariant (I := fun s => Tracked I s ∧ s.ref = s₀.ref) ?_ ?_ h
  · rintro s rfl
    exact ⟨h₀.tracked, rfl⟩
  · rintro e s _ ⟨ht, href⟩ he ⟨⟩
    exact ⟨ht.play he, (play_ref e).trans href⟩

/-- **No compiled function over changed text**: in every history of a running game, in which the guard
is asked by dispatches only, whose stores meet the condition, and at an entry the guard accepts. -/
theorem dispatch_unmodified {s₀ : State} (h₀ : Fresh I s₀) (h : Played I cfg G s₀ s)
    (hlo : I.lo ≤ addr.toNat % 2 ^ 29) (hhi : addr.toNat % 2 ^ 29 < I.hi)
    (hq : QueryOk I cfg s (addr.toNat % 2 ^ 29))
    (hguard : G.isEntry addr = true → (nativeOk I cfg s (addr.toNat % 2 ^ 29)).1 = true)
    (hr : (dispatchInner I cfg G s addr).1 = .compiled) :
    ∀ a, addr.toNat % 2 ^ 29 ≤ a → a < windowEnd I (addr.toNat % 2 ^ 29) → s.ram a = s₀.ref a := by
  obtain ⟨-, hentry, -⟩ := dispatchInner_compiled_iff.mp hr
  obtain ⟨ht, href⟩ := h.tracked h₀
  rw [← href]
  exact windowMatches_of_nativeOk ht hlo hhi hq (hguard hentry)

end

/-- The game whose text is the image of two pages, with one entry. -/
def oneEntry : Game := ⟨0x10000, 0x12000, fun addr => addr = 0x80010000#32⟩

/-- The second page is changed, marked executable and dispatched to. -/
def secondChanged : State :=
  (dispatchInner twoPages {} oneEntry
    (markExecutableRange (store twoPages zeroState .byte false 0x80011800#32 1#32) 0x11000 16)
    0x80011800#32).2

theorem secondChanged_played : Played twoPages {} oneEntry zeroState secondChanged :=
  .next (a := .dispatch 0x80011800#32) (.next (a := .markExecutable 0x11000 16)
    (.next (a := .store .byte false 0x80011800#32 1#32) (.start rfl) (opOk_byte _ _ _) rfl) trivial rfl)
    trivial rfl

/-- The changed page is given up, and the entry in the first page goes on running as compiled. -/
theorem dispatch_unmodified_second : secondChanged.diverged 0x11 = true ∧
    secondChanged.ram 0x11800 ≠ zeroState.ref 0x11800 ∧
    (dispatchInner twoPages {} oneEntry secondChanged 0x80010000#32).1 = .compiled ∧
      ∀ a, 0x10000 ≤ a → a < windowEnd twoPages 0x10000 → secondChanged.ram a = zeroState.ref a := by
  have hr : (dispatchInner twoPages {} oneEntry secondChanged 0x80010000#32).1 = .compiled := by decide
  refine ⟨by decide, by decide, hr, ?_⟩
  refine dispatch_unmodified zeroState_fresh secondChanged_played (by decide) (by decide) ?_
    (fun _ => by decide) hr
  intro hmod _ a ha ha'
  rwa [pageOf_first ha ha']

/-- One byte of the entry overwritten: the compiled function is called. -/
theorem dispatch_diverged_compiled :
    let s := step twoPages {} zeroState (.store .byte false 0x80010000#32 1#32)
    (dispatchInner twoPages {} oneEntry s 0x80010000#32).1 = .compiled ∧
      (nativeOk twoPages {} s 0x10000).1 = false ∧ s.ram 0x10000 ≠ s.ref 0x10000 := by
  refine ⟨?_, ?_, ?_⟩ <;> decide

end PsxRecomp.TextGuard
