import PsxRecomp.Lib.Ring
import PsxRecomp.Runtime.XaResample

/-!
# `Runtime/SpuCdAudio.lean` — the CD input of the SPU

`spu_cd_audio_push` and `cd_audio_pop` of `runtime/src/spu.c`: eight seconds of stereo frames between
the CD-ROM's XA decoder and the mixer. A push that finds too little room drops what is oldest; one that
is longer than the ring skips the beginning of its own input first. `Queue` says what this is for: a
queue of bounded length, with the accounts of what went in and where it went.
-/

set_option autoImplicit false

namespace PsxRecomp.Spu

open List BitVec

open Xa (Frame)

/-! ## 1. The code

The length of the ring, `SPU_CD_RING_FRAMES`, is the argument `cap`. -/

/-- `SPU_CD_RING_FRAMES` -/
def cdRingFrames : Nat := 44100 * 8

/-- The `cd_*` variables. A cell of the ring is one frame, two samples of the array. -/
structure CdAudio where
  ring : Nat → Frame
  readPos : Nat
  writePos : Nat
  frameCount : Nat
  pushFrames : BitVec 64
  overflowFrames : BitVec 64
  underflowFrames : BitVec 64

/-- `spu_cd_audio_reset` -/
def CdAudio.reset : CdAudio := ⟨fun _ => ⟨0, 0⟩, 0, 0, 0, 0, 0, 0⟩

/-- The frames of the input that the ring has no room for, were it empty -/
def skipped (cap : Nat) (stereo : List Frame) : Nat :=
  if cap < stereo.length then stereo.length - cap else 0

/-- Room for `n` frames, made at the read end -/
def CdAudio.makeRoom (cap : Nat) (s : CdAudio) (n : Nat) : CdAudio :=
  if cap < s.frameCount + n then
    let drop := s.frameCount + n - cap
    { s with
      readPos := (s.readPos + drop) % cap
      frameCount := s.frameCount - drop
      overflowFrames := s.overflowFrames + BitVec.ofNat 64 drop }
  else s

/-- The copy loop of `spu_cd_audio_push` -/
def CdAudio.store (cap : Nat) : List Frame → CdAudio → CdAudio
  | [], s => s
  | frame :: rest, s =>
    store cap rest { s with
      ring := Function.update s.ring s.writePos frame
      writePos := (s.writePos + 1) % cap }

/-- `spu_cd_audio_push`. The length of a C array is below 2^31, so that none of the `uint32_t` sums
wraps. -/
def CdAudio.push (cap : Nat) (stereo : List Frame) (s : CdAudio) : CdAudio :=
  if stereo.length = 0 then s
  else
    let input := stereo.drop (skipped cap stereo)
    let s := { s with overflowFrames := s.overflowFrames + BitVec.ofNat 64 (skipped cap stereo) }
    let s := (s.makeRoom cap input.length).store cap input
    { s with
      frameCount := s.frameCount + input.length
      pushFrames := s.pushFrames + BitVec.ofNat 64 input.length }

/-- `cd_audio_pop` -/
def CdAudio.pop (cap : Nat) (s : CdAudio) : Option Frame × CdAudio :=
  if s.frameCount = 0 then (none, s)
  else
    (some (s.ring s.readPos), { s with
      readPos := (s.readPos + 1) % cap
      frameCount := s.frameCount - 1 })

inductive CdOp where
  | reset
  | push (stereo : List Frame)
  | pop

def CdAudio.run (cap : Nat) : List CdOp → CdAudio → List (Option Frame) × CdAudio
  | [], s => ([], s)
  | .reset :: ops, _ => run cap ops .reset
  | .push stereo :: ops, s => run cap ops (s.push cap stereo)
  | .pop :: ops, s => ((s.pop cap).1 :: (run cap ops (s.pop cap).2).1, (run cap ops (s.pop cap).2).2)

/-! ## 2. The queue -/

/-- A queue of at most `cap` frames -/
structure Queue where
  contents : List Frame
  /-- frames that came into the queue -/
  entered : Nat
  /-- frames taken out of it -/
  popped : Nat
  /-- frames it lost to newer ones -/
  dropped : Nat
  /-- frames that never came in, since they were too many -/
  refused : Nat

def Queue.empty : Queue := ⟨[], 0, 0, 0, 0⟩

/-- The last `cap` of the frames that are there and those that come -/
def Queue.push (cap : Nat) (xs : List Frame) (q : Queue) : Queue :=
  { contents := (q.contents ++ xs).drop (q.contents.length + xs.length - cap)
    entered := q.entered + min xs.length cap
    popped := q.popped
    dropped := q.dropped + min q.contents.length (q.contents.length + xs.length - cap)
    refused := q.refused + (xs.length - cap) }

def Queue.pop (q : Queue) : Option Frame × Queue :=
  match q.contents with
  | [] => (none, q)
  | frame :: rest => (some frame, { q with contents := rest, popped := q.popped + 1 })

def Queue.run (cap : Nat) : List CdOp → Queue → List (Option Frame) × Queue
  | [], q => ([], q)
  | .reset :: ops, _ => run cap ops .empty
  | .push stereo :: ops, q => run cap ops (q.push cap stereo)
  | .pop :: ops, q => ((q.pop).1 :: (run cap ops (q.pop).2).1, (run cap ops (q.pop).2).2)

def Queue.Balanced (cap : Nat) (q : Queue) : Prop :=
  q.contents.length ≤ cap ∧ q.entered = q.popped + q.dropped + q.contents.length

/-! ## 3. The ring is the queue -/

structure Represents (cap : Nat) (s : CdAudio) (q : Queue) : Prop where
  cells : Ring.Queued cap s.ring s.readPos s.writePos q.contents
  count : s.frameCount = q.contents.length
  balanced : q.Balanced cap
  pushes : s.pushFrames = BitVec.ofNat 64 q.entered
  overflows : s.overflowFrames = BitVec.ofNat 64 (q.dropped + q.refused)

variable {cap : Nat}

theorem represents_reset : Represents cap .reset .empty :=
  ⟨Ring.queued_nil _, rfl, ⟨Nat.zero_le _, rfl⟩, rfl, rfl⟩

section
variable {s : CdAudio} {q : Queue}

theorem store_fields (cap : Nat) (xs : List Frame) : ∀ s : CdAudio,
    (s.store cap xs).frameCount = s.frameCount ∧ (s.store cap xs).pushFrames = s.pushFrames ∧
      (s.store cap xs).overflowFrames = s.overflowFrames := by
  induction xs with
  | nil => exact fun s => ⟨rfl, rfl, rfl⟩
  | cons frame xs ih => exact fun s => ih _

theorem store_queued (xs : List Frame) : ∀ (s : CdAudio) (contents : List Frame),
    Ring.Queued cap s.ring s.readPos s.writePos contents →
    contents.length + xs.length ≤ cap →
    Ring.Queued cap (s.store cap xs).ring (s.store cap xs).readPos (s.store cap xs).writePos
      (contents ++ xs) := by
  induction xs with
  | nil =>
    intro s contents h _
    rw [append_nil]
    exact h
  | cons frame xs ih =>
    intro s contents h hroom
    rw [length_cons] at hroom
    rw [append_cons]
    apply ih
    · exact h.push (by omega)
    · rw [length_append, length_singleton]
      omega

theorem makeRoom_spec {contents : List Frame} {n : Nat}
    (hcells : Ring.Queued cap s.ring s.readPos s.writePos contents)
    (hcount : s.frameCount = contents.length) (hn : n ≤ cap) :
    let d := contents.length + n - cap
    Ring.Queued cap (s.makeRoom cap n).ring (s.makeRoom cap n).readPos (s.makeRoom cap n).writePos
        (contents.drop d) ∧
      (s.makeRoom cap n).frameCount = contents.length - d ∧ (s.makeRoom cap n).pushFrames = s.pushFrames ∧
      (s.makeRoom cap n).overflowFrames = s.overflowFrames + BitVec.ofNat 64 d := by
  intro d
  unfold CdAudio.makeRoom
  split_ifs with hfull
  · rw [hcount] at hfull ⊢
    exact ⟨hcells.drop (by omega), rfl, rfl, rfl⟩
  · have hd : d = 0 := by omega
    rw [hd]
    exact ⟨hcells, hcount, rfl, (BitVec.add_zero _).symm⟩

theorem skipped_eq (cap : Nat) (xs : List Frame) : skipped cap xs = xs.length - cap := by
  unfold skipped
  split_ifs <;> omega

theorem length_drop_skipped (cap : Nat) (xs : List Frame) :
    (xs.drop (skipped cap xs)).length = min xs.length cap := by
  rw [length_drop, skipped_eq]
  omega

theorem drop_append_skipped (contents xs : List Frame) :
    contents.drop (contents.length + min xs.length cap - cap) ++ xs.drop (skipped cap xs) =
      (contents ++ xs).drop (contents.length + xs.length - cap) := by
  rw [drop_append, skipped_eq]
  by_cases hlong : cap < xs.length
  · rw [drop_of_length_le (l := contents) (by omega), drop_of_length_le (l := contents) (by omega),
      show contents.length + xs.length - cap - contents.length = xs.length - cap by omega]
  · rw [show min xs.length cap = xs.length by omega,
      show contents.length + xs.length - cap - contents.length = 0 by omega,
      show xs.length - cap = 0 by omega]

theorem Represents.push (h : Represents cap s q) (xs : List Frame) :
    Represents cap (s.push cap xs) (q.push cap xs) := by
  obtain ⟨hcells, hcount, ⟨hcap, haccount⟩, hpushes, hoverflows⟩ := h
  by_cases hnil : xs.length = 0
  · obtain rfl := List.length_eq_zero_iff.mp hnil
    have hq : q.push cap [] = q := by
      simp [Queue.push, append_nil, length_nil, Nat.sub_eq_zero_of_le hcap, drop_zero]
    rw [hq]
    exact ⟨hcells, hcount, ⟨hcap, haccount⟩, hpushes, hoverflows⟩
  · have hlen := length_drop_skipped cap xs
    have hskip := skipped_eq cap xs
    obtain ⟨hqueued, hleft, hpushed, hover⟩ := makeRoom_spec
      (s := { s with overflowFrames := s.overflowFrames + BitVec.ofNat 64 (skipped cap xs) })
      (n := (xs.drop (skipped cap xs)).length) hcells hcount (by omega)
    have hstored := store_queued (xs.drop (skipped cap xs)) _ _ hqueued (by rw [length_drop]; omega)
    obtain ⟨hsc, hsp, hso⟩ := store_fields cap (xs.drop (skipped cap xs))
      (CdAudio.makeRoom cap { s with overflowFrames := s.overflowFrames + BitVec.ofNat 64 (skipped cap xs) }
        (xs.drop (skipped cap xs)).length)
    rw [hpushed] at hsp
    rw [hover] at hso
    unfold CdAudio.push
    rw [if_neg hnil]
    dsimp only
    rw [hlen] at *
    rw [drop_append_skipped] at hstored
    refine ⟨hstored, ?_, ⟨?_, ?_⟩, ?_, ?_⟩
    · dsimp only [Queue.push]
      rw [hsc, length_drop, length_append]
      omega
    · dsimp only [Queue.push]
      rw [length_drop, length_append]
      omega
    · dsimp only [Queue.push]
      rw [length_drop, length_append]
      omega
    · dsimp only [Queue.push]
      rw [hsp, hpushes, ofNat_add]
    · dsimp only [Queue.push]
      rw [hso, hoverflows, ← ofNat_add, ← ofNat_add]
      congr 1
      omega

theorem Represents.pop (h : Represents cap s q) :
    (s.pop cap).1 = (q.pop).1 ∧ Represents cap (s.pop cap).2 (q.pop).2 := by
  obtain ⟨hcells, hcount, ⟨hcap, haccount⟩, hpushes, hoverflows⟩ := h
  unfold CdAudio.pop Queue.pop
  cases hq : q.contents with
  | nil =>
    have hempty : s.frameCount = 0 := by rw [hcount, hq, length_nil]
    rw [if_pos hempty]
    exact ⟨rfl, hcells, hcount, ⟨hcap, haccount⟩, hpushes, hoverflows⟩
  | cons frame rest =>
    rw [hq] at hcells hcount hcap haccount
    rw [length_cons] at hcount hcap haccount
    rw [if_neg (by omega)]
    refine ⟨congrArg some hcells.head, hcells.drop (k := 1) (by simp), ?_, ⟨?_, ?_⟩, hpushes, hoverflows⟩
    · show s.frameCount - 1 = rest.length
      omega
    · show rest.length ≤ cap
      omega
    · show q.entered = q.popped + 1 + q.dropped + rest.length
      omega

theorem Represents.run (ops : List CdOp) : ∀ {s : CdAudio} {q : Queue}, Represents cap s q →
    (s.run cap ops).1 = (q.run cap ops).1 ∧ Represents cap (s.run cap ops).2 (q.run cap ops).2 := by
  induction ops with
  | nil => exact fun h => ⟨rfl, h⟩
  | cons op ops ih =>
    intro s q h
    cases op with
    | reset => exact ih represents_reset
    | push stereo => exact ih (h.push stereo)
    | pop =>
      obtain ⟨hout, hpop⟩ := h.pop
      obtain ⟨houts, hrest⟩ := ih hpop
      exact ⟨congrArg₂ List.cons hout houts, hrest⟩

end

/-- **The ring is a bounded queue**: it pops what a queue of 352800 frames that drops its oldest would
pop, and every frame that was pushed has been popped, was dropped or is still there. -/
theorem cd_ring_refines (ops : List CdOp) :
    let s := (CdAudio.reset.run cdRingFrames ops).2
    let q := (Queue.empty.run cdRingFrames ops).2
    (CdAudio.reset.run cdRingFrames ops).1 = (Queue.empty.run cdRingFrames ops).1 ∧
      s.frameCount = q.contents.length ∧ q.contents.length ≤ cdRingFrames ∧
      q.entered = q.popped + q.dropped + s.frameCount ∧
      s.pushFrames = BitVec.ofNat 64 q.entered ∧
      s.overflowFrames = BitVec.ofNat 64 (q.dropped + q.refused) := by
  obtain ⟨houts, h⟩ := represents_reset.run ops
  intro s q
  obtain ⟨hcap, haccount⟩ := h.balanced
  exact ⟨houts, h.count, hcap, h.count ▸ haccount, h.pushes, h.overflows⟩

end PsxRecomp.Spu
