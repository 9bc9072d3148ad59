import Mathlib.Logic.Function.Basic
import Mathlib.Data.Int.ModEq

/-!
# `Lib/Ring.lean` — a ring that is written in sequence

`n` cells, written one after the other and over again. `Shows n ring log` relates the cells to the log of
everything written so far: the last `n` entries of the log are in the ring, entry `i` in cell `i % n`.
`Shows.push` is the only step; what a reader behind the writer finds follows from it.

`Queued` is the other common use: a queue between a read and a write cursor.
-/

set_option autoImplicit false

namespace Ring

open List

variable {α : Type} {n : Nat} {ring : Nat → α} {log : List α}

/-- The ring holds the last `n` entries of the log -/
def Shows (n : Nat) (ring : Nat → α) (log : List α) : Prop :=
  ∀ i x, log[i]? = some x → log.length ≤ i + n → ring (i % n) = x

theorem shows_replicate (m : Nat) (x : α) : Shows n (fun _ => x) (List.replicate m x) := by
  intro i y hy _
  have hmem := mem_of_getElem? hy
  exact (eq_of_mem_replicate hmem).symm

theorem mod_ne_of_near {i j : Nat} (hij : i < j) (hnear : j < i + n) : i % n ≠ j % n := by
  intro heq
  have hdvd : n ∣ j - i := (Nat.modEq_iff_dvd' hij.le).mp heq
  have hle := Nat.le_of_dvd (by omega) hdvd
  omega

theorem Shows.push (h : Shows n ring log) (x : α) :
    Shows n (Function.update ring (log.length % n) x) (log ++ [x]) := by
  intro i y hy hlast
  rw [length_append, length_singleton] at hlast
  rcases Nat.lt_trichotomy i log.length with hold | rfl | hbehind
  · rw [List.getElem?_append_left hold] at hy
    rw [Function.update_of_ne (mod_ne_of_near hold (by omega))]
    exact h i y hy (by omega)
  · rw [List.getElem?_concat_length] at hy
    rw [Function.update_self]
    exact Option.some.inj hy
  · rw [List.getElem?_eq_none (by simp; omega)] at hy
    exact absurd hy (by simp)

theorem Shows.behind (h : Shows n ring log) {d : Nat} {x : α} (hd : d ≤ n)
    (hx : log[log.length - d]? = some x) : ring ((log.length - d) % n) = x :=
  h _ x hx (by omega)

/-! ## Queues -/

/-- The cells from the read cursor up to the write cursor are the queue `q`. -/
def Queued (n : Nat) (ring : Nat → α) (read write : Nat) (q : List α) : Prop :=
  ∃ log, Shows n ring log ∧ q <:+ log ∧ q.length ≤ n ∧ write = log.length % n ∧
    read = (log.length - q.length) % n

section
variable {read write : Nat} {q : List α} {x : α}

theorem queued_nil (ring : Nat → α) : Queued n ring 0 0 [] :=
  ⟨[], fun _ _ h => absurd h (by simp), suffix_refl _, Nat.zero_le _, by simp, by simp⟩

theorem Queued.push (h : Queued n ring read write q) (hroom : q.length < n) :
    Queued n (Function.update ring write x) read ((write + 1) % n) (q ++ [x]) := by
  obtain ⟨log, hshows, ⟨older, rfl⟩, -, rfl, rfl⟩ := h
  refine ⟨older ++ q ++ [x], hshows.push x, ⟨older, (List.append_assoc _ _ _).symm⟩, ?_, ?_, ?_⟩
  · rw [length_append, length_singleton]
    omega
  · simp only [length_append, length_singleton, Nat.mod_add_mod]
  · simp only [length_append, length_singleton]
    congr 1
    omega

theorem Queued.drop (h : Queued n ring read write q) {k : Nat} (hk : k ≤ q.length) :
    Queued n ring ((read + k) % n) write (q.drop k) := by
  obtain ⟨log, hshows, hsuffix, hlen, rfl, rfl⟩ := h
  have hle := hsuffix.length_le
  refine ⟨log, hshows, (drop_suffix k q).trans hsuffix, ?_, rfl, ?_⟩
  · rw [length_drop]
    omega
  · rw [length_drop, Nat.mod_add_mod]
    congr 1
    omega

theorem Queued.head (h : Queued n ring read write (x :: q)) : ring read = x := by
  obtain ⟨log, hshows, ⟨older, rfl⟩, hlen, -, rfl⟩ := h
  apply hshows.behind hlen
  rw [length_append, Nat.add_sub_cancel, List.getElem?_append_right le_rfl, Nat.sub_self]
  rfl

end

end Ring
