import PsxRecomp.Lib.Bytes
import PsxRecomp.Machine.Cpu

/-!
# `Runtime/Ram.lean` — RAM bytes, pages and stores

`runtime/src/memory.c`: two megabytes of RAM, mirrored four times at the bottom of every segment, and
the 4 KB pages all write tracking works with. A store writes one, two or four bytes in little-endian
order. The chokepoint of all CPU and DMA stores is `psx_write_*_raw`; `storeTarget` is the part of it
that decides which RAM bytes, if any, a store is for.

RAM is a function on physical addresses. Its array ends at `ramSize`; the functions below are only
ever asked about addresses inside it.
-/

set_option autoImplicit false

namespace PsxRecomp.Ram

open Words

abbrev Byte := BitVec 8

def ramSize : Nat := 2 * 1024 * 1024

/-- `DIRTY_RAM_PAGE_SHIFT` -/
def pageOf (phys : Nat) : Nat := phys / 4096

/-- `psx_phys_addr` -/
def physAddr (addr : Word) : Nat :=
  let phys := addr.toNat % 2 ^ 29
  if phys < 0x800000 then phys % ramSize else phys

inductive Width where
  | byte
  | half
  | word
  deriving DecidableEq, Repr

def Width.size : Width → Nat
  | .byte => 1
  | .half => 2
  | .word => 4

/-- The bytes a store of `val` writes. -/
def Width.bytes (w : Width) (val : Word) : List Byte :=
  (List.range w.size).map fun i => (val >>> (8 * i)).setWidth 8

@[simp] theorem Width.length_bytes (w : Width) (val : Word) : (w.bytes val).length = w.size := by
  simp [Width.bytes]

/-- The physical address a store goes to, if it is for RAM: not in `KSEG2` and not while the cache
is isolated. -/
def storeTarget (isolated : Bool) (addr : Word) : Option Nat :=
  if 0xC0000000 ≤ addr.toNat ∨ isolated then none
  else if physAddr addr < ramSize then some (physAddr addr)
  else none

/-- RAM after `bytes` have been written from `phys` on. -/
def write (ram : Nat → Byte) (phys : Nat) (bytes : List Byte) (a : Nat) : Byte :=
  if phys ≤ a ∧ a < phys + bytes.length then bytes.getD (a - phys) 0 else ram a

section
variable {ram : Nat → Byte} {phys a : Nat} {bytes : List Byte}

theorem write_of_mem (h : phys ≤ a) (h' : a < phys + bytes.length) :
    write ram phys bytes a = bytes.getD (a - phys) 0 :=
  if_pos ⟨h, h'⟩

theorem write_of_not_mem (h : ¬ (phys ≤ a ∧ a < phys + bytes.length)) :
    write ram phys bytes a = ram a :=
  if_neg h

end

/-! ## Words in RAM -/

theorem getD_bytes (w : Word) {j : Nat} (hj : j < 4) :
    (Width.word.bytes w).getD j 0 = Words.byteOf w j := by
  interval_cases j <;> rfl

theorem write_bytes (m : Nat → Byte) (o : Nat) (w : Word) (x : Nat) :
    write m o (Width.word.bytes w) x = if o ≤ x ∧ x < o + 4 then Words.byteOf w (x - o) else m x := by
  by_cases hin : o ≤ x ∧ x < o + 4
  · rw [if_pos hin, write_of_mem hin.1 (by simpa [Width.size] using hin.2), getD_bytes w (by omega)]
  · rw [if_neg hin, write_of_not_mem (by simpa [Width.size] using hin)]

theorem write_bytes_inj {m : Nat → Byte} {o : Nat} {w w' : Word} :
    write m o (Width.word.bytes w) = write m o (Width.word.bytes w') ↔ w = w' := by
  refine ⟨fun h => eq_of_byteOf fun j hj => ?_, fun h => h ▸ rfl⟩
  have hx := congrFun h (o + j)
  rw [write_bytes, write_bytes, if_pos ⟨by omega, by omega⟩, if_pos ⟨by omega, by omega⟩,
    Nat.add_sub_cancel_left] at hx
  exact hx

theorem leWord_write_self (m : Nat → Byte) (o : Nat) (w : Word) :
    Words.leWord (write m o (Width.word.bytes w)) o = w := by
  refine eq_of_byteOf fun j hj => ?_
  rw [byteOf_leWord _ _ hj, write_bytes, if_pos (by omega), Nat.add_sub_cancel_left]

theorem leWord_write {m : Nat → Byte} {o o' : Nat} (w : Word) (h : o' + 4 ≤ o ∨ o + 4 ≤ o') :
    Words.leWord (write m o (Width.word.bytes w)) o' = Words.leWord m o' := by
  refine eq_of_byteOf fun j hj => ?_
  rw [byteOf_leWord _ _ hj, byteOf_leWord _ _ hj, write_bytes, if_neg (by omega)]

/-- RAM after words have been stored at addresses, in order -/
def writeWords (ram : Nat → Byte) : List (Nat × Word) → Nat → Byte
  | [] => ram
  | (o, w) :: ws => writeWords (write ram o (Width.word.bytes w)) ws

section
variable {ram : Nat → Byte} {ws : List (Nat × Word)}

theorem writeWords_append (ws ws' : List (Nat × Word)) :
    writeWords ram (ws ++ ws') = writeWords (writeWords ram ws) ws' := by
  induction ws generalizing ram with
  | nil => rfl
  | cons head ws ih => exact ih

theorem writeWords_of_not_mem {x : Nat} (h : ∀ p ∈ ws, ¬ (p.1 ≤ x ∧ x < p.1 + 4)) :
    writeWords ram ws x = ram x := by
  induction ws generalizing ram with
  | nil => rfl
  | cons head ws ih =>
    obtain ⟨hhead, hrest⟩ := List.forall_mem_cons.mp h
    rw [writeWords, ih hrest, write_bytes, if_neg hhead]

theorem leWord_writeWords_of_not_mem {o : Nat} (h : ∀ p ∈ ws, o + 4 ≤ p.1 ∨ p.1 + 4 ≤ o) :
    Words.leWord (writeWords ram ws) o = Words.leWord ram o := by
  refine eq_of_byteOf fun j hj => ?_
  rw [byteOf_leWord _ _ hj, byteOf_leWord _ _ hj,
    writeWords_of_not_mem fun p hp => by have := h p hp; omega]

theorem leWord_writeWords (r : Nat) (hapart : ∀ p ∈ ws, p.1 % 4 = r) (hnodup : (ws.map Prod.fst).Nodup)
    {o : Nat} {w : Word} (hmem : (o, w) ∈ ws) : Words.leWord (writeWords ram ws) o = w := by
  induction ws generalizing ram with
  | nil => cases hmem
  | cons head ws ih =>
    obtain ⟨hhead, hrest⟩ := List.forall_mem_cons.mp hapart
    obtain ⟨hnew, hnodup⟩ := List.nodup_cons.mp hnodup
    rcases List.mem_cons.mp hmem with rfl | hmem
    · -- the stores behind it are for other words
      have hother : ∀ p ∈ ws, o + 4 ≤ p.1 ∨ p.1 + 4 ≤ o := by
        intro p hp
        have hne : p.1 ≠ o := fun heq => hnew (List.mem_map.mpr ⟨p, hp, heq⟩)
        have := hrest p hp
        omega
      rw [writeWords, leWord_writeWords_of_not_mem hother, leWord_write_self]
    · exact ih hrest hnodup hmem

theorem writeWords_of_mem (ram' : Nat → Byte) {ws : List (Nat × Word)} {x : Nat}
    (hx : ∃ p ∈ ws, p.1 ≤ x ∧ x < p.1 + 4) : writeWords ram ws x = writeWords ram' ws x := by
  induction ws generalizing ram ram' with
  | nil => simp at hx
  | cons p ws ih =>
    by_cases hrest : ∃ q ∈ ws, q.1 ≤ x ∧ x < q.1 + 4
    · exact ih _ hrest
    · -- the head writes the byte and the rest leaves it alone
      have hnone : ∀ q ∈ ws, ¬ (q.1 ≤ x ∧ x < q.1 + 4) := fun q hq hin => hrest ⟨q, hq, hin⟩
      have hhead : p.1 ≤ x ∧ x < p.1 + 4 := by
        obtain ⟨q, hq, hin⟩ := hx
        rcases List.mem_cons.mp hq with rfl | hq
        · exact hin
        · exact absurd hin (hnone q hq)
      rw [writeWords, writeWords, writeWords_of_not_mem hnone, writeWords_of_not_mem hnone,
        write_bytes, write_bytes, if_pos hhead, if_pos hhead]

theorem writeWords_comm {ws ws' : List (Nat × Word)}
    (h : ∀ p ∈ ws, ∀ q ∈ ws', p.1 + 4 ≤ q.1 ∨ q.1 + 4 ≤ p.1) :
    writeWords (writeWords ram ws) ws' = writeWords (writeWords ram ws') ws := by
  funext x
  by_cases hx : ∃ p ∈ ws, p.1 ≤ x ∧ x < p.1 + 4
  · obtain ⟨p, hp, hin⟩ := id hx
    have hnone : ∀ q ∈ ws', ¬ (q.1 ≤ x ∧ x < q.1 + 4) := fun q hq hin' => by
      have := h p hp q hq
      omega
    rw [writeWords_of_not_mem hnone]
    exact writeWords_of_mem _ hx
  · have hnone : ∀ p ∈ ws, ¬ (p.1 ≤ x ∧ x < p.1 + 4) := fun p hp hin => hx ⟨p, hp, hin⟩
    rw [show writeWords (writeWords ram ws') ws x = writeWords ram ws' x from
      writeWords_of_not_mem hnone]
    by_cases hx' : ∃ q ∈ ws', q.1 ≤ x ∧ x < q.1 + 4
    · exact writeWords_of_mem _ hx'
    · have hnone' : ∀ q ∈ ws', ¬ (q.1 ≤ x ∧ x < q.1 + 4) := fun q hq hin => hx' ⟨q, hq, hin⟩
      rw [writeWords_of_not_mem hnone', writeWords_of_not_mem hnone', writeWords_of_not_mem hnone]

end

end PsxRecomp.Ram
