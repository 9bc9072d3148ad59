import PsxRecomp.Lib.Ring
import Mathlib.Data.Nat.Bitwise

/-!
# `Tools/LzDecode.lean` — the overlay decompressor

`lz_decode` of `tools/musashi_disc_overlays.py` unpacks the code overlays of the disc. A flag byte
announces eight items, a literal byte or a two-byte reference into a ring of the last 1024 bytes. The
format is stated on its own: `tokens` cuts the input into items and says how it ends, `lz77` replays the
items over the output alone, with no ring.
-/

set_option autoImplicit false

namespace PsxRecomp.Tools.Lz

open List

abbrev Byte := BitVec 8

/-! ## 1. The code -/

inductive PyError where
  | indexError
deriving DecidableEq, Repr

/-- The locals `ring`, `rp` and `out` -/
structure State where
  ring : Nat → Byte
  rp : Nat
  out : List Byte

def State.init : State := ⟨fun _ => 0, 1, []⟩

/-- `ring[rp] = b; rp = (rp + 1) & 0x3FF; out.append(b)` -/
def State.put (s : State) (b : Byte) : State :=
  ⟨Function.update s.ring s.rp b, (s.rp + 1) &&& 0x3FF, s.out ++ [b]⟩

/-- `for _ in range(n)` over the bytes of a reference -/
def copy : Nat → Nat → State → State
  | 0, _, s => s
  | n + 1, off, s => copy n ((off + 1) &&& 0x3FF) (s.put (s.ring off))

/-- `b0 | ((b1 & 3) << 8)` -/
def refOffset (b0 b1 : Byte) : Nat := b0.toNat ||| ((b1.toNat &&& 3) <<< 8)

/-- `(b1 >> 2) + 2` -/
def refLength (b1 : Byte) : Nat := (b1.toNat >>> 2) + 2

inductive Flow where
  | ret (out : List Byte)
  | next (s : State) (rest : List Byte)

/-- `for bit in range(8)` with `n` bits left, on `src[i:]` -/
def items (flags : Byte) : Nat → List Byte → State → Except PyError Flow
  | 0, rest, s => .ok (.next s rest)
  | _ + 1, [], s => .ok (.ret s.out)
  | n + 1, b0 :: rest, s =>
    if flags.getLsbD (7 - n) then items flags n rest (s.put b0)
    else match rest with
      | [] => .error .indexError
      | b1 :: rest =>
        if refOffset b0 b1 = 0 then .ok (.ret s.out)
        else items flags n rest (copy (refLength b1) (refOffset b0 b1) s)

/-- `while i < len(src)`. A pass takes the flag byte at least, so the input's length bounds the passes. -/
def groups : Nat → List Byte → State → Except PyError (List Byte)
  | 0, _, s => .ok s.out
  | _ + 1, [], s => .ok s.out
  | fuel + 1, flags :: rest, s =>
    match items flags 8 rest s with
    | .error e => .error e
    | .ok (.ret out) => .ok out
    | .ok (.next s rest) => groups fuel rest s

def lzDecode (src : List Byte) : Except PyError (List Byte) := groups src.length src .init

/-! ## 2. The format -/

inductive Token where
  | literal (b : Byte)
  | reference (off len : Nat)
deriving DecidableEq, Repr

inductive Ending where
  /-- no byte left where an item or a flag byte would start -/
  | input
  /-- a reference with offset zero -/
  | terminator
  /-- one byte left where a reference would start -/
  | cut
deriving DecidableEq, Repr

/-- The bits of a flag byte, from the bottom, without the first `8 - n` -/
def flagBits (flags : Byte) : Nat → List Bool
  | 0 => []
  | n + 1 => flags.getLsbD (7 - n) :: flagBits flags n

/-- The items of an input, with the flag bits that are still to be used up -/
def tokens : List Bool → List Byte → List Token × Ending
  | _, [] => ([], .input)
  | [], flags :: rest => tokens (flagBits flags 8) rest
  | true :: bits, b :: rest =>
    (.literal b :: (tokens bits rest).1, (tokens bits rest).2)
  | false :: _, [_] => ([], .cut)
  | false :: bits, b0 :: b1 :: rest =>
    if refOffset b0 b1 = 0 then ([], .terminator)
    else
      (.reference (refOffset b0 b1) (refLength b1) :: (tokens bits rest).1, (tokens bits rest).2)

/-- The input ends between the two bytes of a reference -/
def EndsInReference (src : List Byte) : Prop := (tokens [] src).2 = .cut

instance (src : List Byte) : Decidable (EndsInReference src) :=
  inferInstanceAs (Decidable ((tokens [] src).2 = .cut))

/-- The byte `d` places back in the output, preceded by zeros -/
def back (out : List Byte) (d : Nat) : Byte := if d ≤ out.length then out.getD (out.length - d) 0 else 0

/-- `n` bytes one at a time from distance `d`, so that a copy may overlap itself -/
def copyBack (d : Nat) : Nat → List Byte → List Byte
  | 0, out => out
  | n + 1, out => copyBack d n (out ++ [back out d])

/-- Ring position `off` as a distance, for an output of length `len` -/
def distance (off len : Nat) : Nat := ((((1 + len) % 1024 : Nat) - off - 1 : Int) % 1024).toNat + 1

def expand (out : List Byte) : Token → List Byte
  | .literal b => out ++ [b]
  | .reference off n => copyBack (distance off out.length) n out

def lz77 (src : List Byte) : List Byte := (tokens [] src).1.foldl expand []

/-! ## 3. The ring holds the output

The ring starts as zeros with the cursor at 1, that is, as if 1025 zeros had been written to it from
position 0. -/

def history (out : List Byte) : List Byte := List.replicate 1025 0 ++ out

theorem length_history (out : List Byte) : (history out).length = 1025 + out.length := by
  rw [history, length_append, length_replicate]

theorem history_append (out : List Byte) (b : Byte) : history out ++ [b] = history (out ++ [b]) :=
  append_assoc _ _ _

structure Tracks (s : State) : Prop where
  ring : Ring.Shows 1024 s.ring (history s.out)
  cursor : s.rp = (1 + s.out.length) % 1024

theorem tracks_init : Tracks .init :=
  ⟨by rw [history, State.init, append_nil]; exact Ring.shows_replicate 1025 0, rfl⟩

theorem and_3FF (n : Nat) : n &&& 0x3FF = n % 1024 := Nat.and_two_pow_sub_one_eq_mod n 10

theorem Tracks.put {s : State} (h : Tracks s) (b : Byte) : Tracks (s.put b) := by
  constructor
  · have hcell : (history s.out).length % 1024 = s.rp := by
      rw [length_history, h.cursor]; omega
    have hpush := h.ring.push b
    rw [hcell, history_append] at hpush
    exact hpush
  · simp only [State.put, and_3FF, h.cursor, length_append, length_singleton]
    omega

theorem distance_bounds (off len : Nat) : 1 ≤ distance off len ∧ distance off len ≤ 1024 := by
  unfold distance
  omega

theorem sub_distance {off : Nat} (hoff : off < 1024) (len : Nat) :
    (1025 + len - distance off len) % 1024 = off := by
  unfold distance
  omega

theorem distance_succ (off len : Nat) : distance ((off + 1) % 1024) (len + 1) = distance off len := by
  unfold distance
  omega

theorem history_back {out : List Byte} {d : Nat} (hpos : 1 ≤ d) (hd : d ≤ 1024) :
    (history out)[(history out).length - d]? = some (back out d) := by
  rw [length_history]
  unfold history back
  by_cases hin : d ≤ out.length
  · rw [getElem?_append_right (by rw [length_replicate]; omega), length_replicate, if_pos hin,
      show 1025 + out.length - d - 1025 = out.length - d by omega,
      getElem?_eq_getElem (by omega), getD_eq_getElem _ _ (by omega)]
  · rw [getElem?_append_left (by rw [length_replicate]; omega), if_neg hin,
      getElem?_replicate_of_lt (by omega)]

theorem Tracks.read {s : State} (h : Tracks s) {off : Nat} (hoff : off < 1024) :
    s.ring off = back s.out (distance off s.out.length) := by
  obtain ⟨hpos, hd⟩ := distance_bounds off s.out.length
  have hread := h.ring.behind hd (history_back hpos hd)
  rw [length_history, sub_distance hoff] at hread
  exact hread

theorem Tracks.copy {n : Nat} : ∀ {s : State} {off : Nat}, Tracks s → off < 1024 →
    Tracks (copy n off s) ∧ (copy n off s).out = copyBack (distance off s.out.length) n s.out := by
  induction n with
  | zero => exact fun h _ => ⟨h, rfl⟩
  | succ n ih =>
    intro s off h hoff
    have hput := ih (h.put (s.ring off)) (Nat.mod_lt (off + 1) (show 1024 > 0 by decide))
    have hout : (s.put (s.ring off)).out = s.out ++ [back s.out (distance off s.out.length)] := by
      rw [← h.read hoff]; rfl
    rw [hout, length_append, length_singleton, distance_succ] at hput
    unfold Lz.copy
    rw [and_3FF]
    exact hput

theorem refOffset_lt (b0 b1 : Byte) : refOffset b0 b1 < 1024 := by
  apply Nat.or_lt_two_pow (n := 10)
  · exact Nat.lt_of_lt_of_le b0.isLt (by decide)
  · have hlow : b1.toNat &&& 3 ≤ 3 := Nat.and_le_right
    omega

/-! ## 4. The two decoders -/

/-- What the format gives for `src` on top of `out` -/
def replay (bits : List Bool) (src out : List Byte) : Except PyError (List Byte) :=
  if (tokens bits src).2 = .cut then .error .indexError else .ok ((tokens bits src).1.foldl expand out)

section
variable (bits : List Bool) (b b0 b1 : Byte) (rest out : List Byte)

@[simp] theorem replay_nil : replay bits [] out = .ok out := by simp [replay, tokens]

@[simp] theorem replay_flags :
    replay [] (b :: rest) out = replay (flagBits b 8) rest out := by rw [replay, tokens, replay]

@[simp] theorem replay_literal :
    replay (true :: bits) (b :: rest) out = replay bits rest (out ++ [b]) := by
  rw [replay, tokens, replay, foldl_cons, expand]

@[simp] theorem replay_cut : replay (false :: bits) [b] out = .error .indexError := by
  simp [replay, tokens]

variable {b0 b1} in
theorem replay_terminator (h : refOffset b0 b1 = 0) :
    replay (false :: bits) (b0 :: b1 :: rest) out = .ok out := by
  simp [replay, tokens, h]

variable {b0 b1} in
theorem replay_reference (h : refOffset b0 b1 ≠ 0) :
    replay (false :: bits) (b0 :: b1 :: rest) out =
      replay bits rest (expand out (.reference (refOffset b0 b1) (refLength b1))) := by
  simp [replay, tokens, h]

end

/-- What the loop over a group's bits may come to, against the format's reading of the same bytes -/
def Follows (bits : List Bool) (src : List Byte) (s : State) : Except PyError Flow → Prop
  | .error e => replay bits src s.out = .error e
  | .ok (.ret out) => replay bits src s.out = .ok out
  | .ok (.next s' rest) =>
    Tracks s' ∧ rest.length ≤ src.length ∧ replay bits src s.out = replay [] rest s'.out

theorem Follows.step {bits bits' : List Bool} {src src' : List Byte} {s s' : State}
    {r : Except PyError Flow} (h : Follows bits' src' s' r) (hlen : src'.length ≤ src.length)
    (heq : replay bits src s.out = replay bits' src' s'.out) : Follows bits src s r := by
  cases r with
  | error e => exact heq.trans h
  | ok flow =>
    cases flow with
    | ret out => exact heq.trans h
    | next t rest =>
      obtain ⟨htracks, hrest, hreplay⟩ := h
      exact ⟨htracks, hrest.trans hlen, heq.trans hreplay⟩

theorem items_follows (flags : Byte) {n : Nat} : ∀ {src : List Byte} {s : State}, Tracks s →
    Follows (flagBits flags n) src s (items flags n src s) := by
  induction n with
  | zero => exact fun h => ⟨h, le_rfl, rfl⟩
  | succ n ih =>
    intro src s h
    unfold flagBits
    cases src with
    | nil => exact replay_nil _ _
    | cons b0 rest =>
      unfold items
      cases hbit : flags.getLsbD (7 - n) with
      | true =>
        exact (ih (h.put b0)).step (by simp) (replay_literal _ _ _ _)
      | false =>
        cases rest with
        | nil => exact replay_cut _ _ _
        | cons b1 rest =>
          dsimp only
          by_cases hoff : refOffset b0 b1 = 0
          · rw [if_pos hoff]
            exact replay_terminator _ _ _ hoff
          · rw [if_neg hoff]
            obtain ⟨htracks, hout⟩ := h.copy (n := refLength b1) (refOffset_lt b0 b1)
            refine (ih htracks).step (by simp; omega) ?_
            rw [replay_reference _ _ _ hoff, hout, expand]

theorem groups_eq_replay {fuel : Nat} : ∀ {src : List Byte} {s : State}, Tracks s →
    src.length ≤ fuel → groups fuel src s = replay [] src s.out := by
  induction fuel with
  | zero =>
    intro src s _ hfuel
    rw [length_eq_zero_iff.mp (Nat.le_zero.mp hfuel), replay_nil, groups]
  | succ fuel ih =>
    intro src s h hfuel
    cases src with
    | nil => exact (replay_nil _ _).symm
    | cons flags rest =>
      have hfollows : Follows (flagBits flags 8) rest s (items flags 8 rest s) := items_follows flags h
      unfold groups
      rw [replay_flags]
      cases hitems : items flags 8 rest s with
      | error e =>
        rw [hitems] at hfollows
        exact hfollows.symm
      | ok flow =>
        rw [hitems] at hfollows
        cases flow with
        | ret out => exact hfollows.symm
        | next s' rest' =>
          obtain ⟨htracks, hrest, hreplay⟩ := hfollows
          rw [hreplay]
          exact ih htracks (hrest.trans (Nat.le_of_succ_le_succ hfuel))

/-- The two decoders are equal, whatever the input, but where it ends between the two bytes of a
reference: there `src[i + 1]` raises. -/
theorem lzDecode_eq (src : List Byte) :
    lzDecode src = if EndsInReference src then .error .indexError else .ok (lz77 src) :=
  groups_eq_replay tracks_init le_rfl

/-! ## 5. Prefixes -/

theorem tokens_append (p t : List Byte) : ∀ bits, (tokens bits p).1 <+: (tokens bits (p ++ t)).1 := by
  intro bits
  induction bits, p using tokens.induct with
  | case1 bits => simp [tokens]
  | case2 flags rest ih =>
    exact ih
  | case3 bits b rest ih =>
    exact prefix_cons_inj _ |>.mpr ih
  | case4 bits b => simp [tokens]
  | case5 bits b0 b1 rest hoff => simp [tokens, hoff]
  | case6 bits b0 b1 rest hoff ih =>
    rw [cons_append, cons_append, tokens, tokens, if_neg hoff, if_neg hoff]
    exact prefix_cons_inj _ |>.mpr ih

theorem prefix_copyBack (d n : Nat) : ∀ out, out <+: copyBack d n out := by
  induction n with
  | zero => exact fun out => prefix_refl out
  | succ n ih => exact fun out => (prefix_append _ _).trans (ih _)

theorem prefix_expand (out : List Byte) (t : Token) : out <+: expand out t := by
  cases t with
  | literal b => exact prefix_append _ _
  | reference off n => exact prefix_copyBack _ _ _

theorem prefix_foldl_expand (ts : List Token) : ∀ out, out <+: ts.foldl expand out := by
  induction ts with
  | nil => exact fun out => prefix_refl out
  | cons t ts ih => exact fun out => (prefix_expand out t).trans (ih _)

theorem lz77_append (p t : List Byte) : lz77 p <+: lz77 (p ++ t) := by
  obtain ⟨more, hmore⟩ := tokens_append p t []
  rw [lz77, lz77, ← hmore, foldl_append]
  exact prefix_foldl_expand _ _

/-- An input and a prefix of it: the decoder gives the LZ77 output, and the prefix a prefix of it, just
when neither ends between the two bytes of a reference. -/
theorem lz_exact_iff (p t : List Byte) :
    (lzDecode (p ++ t) = .ok (lz77 (p ++ t)) ∧ ∃ out, lzDecode p = .ok out ∧ out <+: lz77 (p ++ t)) ↔
      ¬ EndsInReference (p ++ t) ∧ ¬ EndsInReference p := by
  rw [lzDecode_eq, lzDecode_eq]
  constructor
  · rintro ⟨hwhole, out, hout, -⟩
    constructor
    · intro hcut
      simp [if_pos hcut] at hwhole
    · intro hcut
      simp [if_pos hcut] at hout
  · rintro ⟨hwhole, hpre⟩
    rw [if_neg hwhole, if_neg hpre]
    exact ⟨rfl, lz77 p, rfl, lz77_append p t⟩

/-- A flag byte for eight references and the first byte of one -/
theorem cut_reference_raises :
    lzDecode [0x00#8, 0x01#8] = .error .indexError ∧ lz77 [0x00#8, 0x01#8] = [] := by
  decide

end PsxRecomp.Tools.Lz
