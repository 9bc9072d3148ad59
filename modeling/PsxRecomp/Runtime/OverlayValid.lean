import Mathlib.Algebra.Order.BigOperators.Group.List
import Mathlib.Algebra.Order.Group.Nat
import PsxRecomp.Lib.Runs
import PsxRecomp.Runtime.Overlay

/-!
# `Runtime/OverlayValid.lean` — native code runs on the bytes it was compiled from

A candidate is judged by its hash, and its verdict kept while the counters of its pages stand still.
`CandOk` says what a kept verdict means: if the candidate is valid and the sum is the one it was judged
at, its hash is that of RAM.

Two places do not keep it. A shard that is reloaded with its stored hash is registered as valid without
being judged. And `run_shadow_diff` copies RAM back behind the counters, so a verdict on bytes that only
the discarded pass wrote survives. `OpOk` are the histories in which neither does harm.
-/

set_option autoImplicit false

namespace PsxRecomp.Overlay

open Ram List Option State

/-! ## 1. What the hash and the sum depend on -/

section
variable {m : Pages} {ram ram' : Nat → Byte} {ranges : List CodeRange}

theorem bytes_congr {r : CodeRange} (h : ∀ a, r.Contains a → ram a = ram' a) :
    r.bytes ram = r.bytes ram' := by
  refine map_congr_left fun i hi => h _ ⟨Nat.le_add_right _ _, ?_⟩
  have := mem_range.mp hi
  omega

theorem crcOf_congr (h : ∀ r ∈ ranges, ∀ a, r.Contains a → ram a = ram' a) :
    crcOf ram ranges = crcOf ram' ranges := by
  exact congrArg (· ^^^ 0xFFFFFFFF#32) (foldl_ext _ _ _ fun crc r hr => by rw [bytes_congr (h r hr)])

theorem mem_pages {r : CodeRange} {a : Nat} (h : r.Contains a) : pageOf a ∈ r.pages := by
  obtain ⟨hlo, hhi⟩ := h
  have hlen : r.len ≠ 0 := by omega
  rw [CodeRange.pages, if_neg hlen, mem_range'_1]
  unfold pageOf
  omega

theorem rawSum_mono {m' : Pages} (h : ∀ p, m.gen p ≤ m'.gen p) : m.rawSum ranges ≤ m'.rawSum ranges :=
  sum_le_sum fun p _ => h p

theorem rawSum_lt {m' : Pages} (h : ∀ p, m.gen p ≤ m'.gen p) {q : Nat}
    (hq : q ∈ ranges.flatMap CodeRange.pages) (hlt : m.gen q < m'.gen q) :
    m.rawSum ranges < m'.rawSum ranges :=
  sum_lt_sum _ _ (fun p _ => h p) ⟨q, hq, hlt⟩

end

/-! ## 2. A verdict that is kept -/

/-- The candidate's pages are watched, and if it is valid at the present sum then its code is in RAM,
or in the RAM that a differential is about to put back (`kept`). -/
structure CandOk (m : Pages) (kept : Option (Nat → Byte)) (c : Candidate) : Prop where
  watched : ∀ p ∈ c.ranges.flatMap CodeRange.pages, m.watched p = true
  stamp : c.valGen.toNat ≤ m.rawSum c.ranges
  trusted : c.state = .valid → c.valGen.toNat = m.rawSum c.ranges →
    crcOf m.ram c.ranges = c.crcCode ∨ ∃ ramI, kept = some ramI ∧ crcOf ramI c.ranges = c.crcCode

variable {c' : Candidate}

section
variable {m : Pages} {kept : Option (Nat → Byte)} {c : Candidate}

/-- A judgement makes verdict and hash agree. -/
theorem CandOk.judged (hw : ∀ p ∈ c'.ranges.flatMap CodeRange.pages, m.watched p = true)
    (hgen : c'.valGen = m.gensum c'.ranges)
    (hcrc : c'.state = .valid → crcOf m.ram c'.ranges = c'.crcCode) : CandOk m kept c' where
  watched := hw
  stamp := by
    rw [hgen, Pages.gensum, BitVec.toNat_ofNat]
    exact Nat.mod_le _ _
  trusted h _ := .inl (hcrc h)

theorem CandOk.update (h : CandOk m kept c) (hr : c'.ranges = c.ranges) (hgen : c'.valGen = c.valGen)
    (hs : c'.state = .valid → c.state = .valid ∧ c'.crcCode = c.crcCode) : CandOk m kept c' where
  watched := hr ▸ h.watched
  stamp := by
    rw [hr, hgen]
    exact h.stamp
  trusted hv := by
    obtain ⟨hv, hcode⟩ := hs hv
    rw [hr, hgen, hcode]
    exact h.trusted hv

theorem CandOk.watch (h : CandOk m kept c) (ranges : List CodeRange) :
    CandOk (m.watch ranges) kept c where
  watched p hp := by simp [Pages.watch, h.watched p hp]
  stamp := h.stamp
  trusted := h.trusted

/-- A store moves the sum of every candidate it changes a byte of. -/
theorem CandOk.store (h : CandOk m kept c) {w : Width} {phys : Nat} (val : Word)
    (halign : phys % w.size = 0) : CandOk (m.store w phys val) kept c := by
  have hmono : ∀ p, m.gen p ≤ (m.store w phys val).gen p := by
    intro p
    simp only [Pages.store]
    split_ifs
    · by_cases hp : p = pageOf phys
      · subst hp
        simp
      · simp [hp]
    · exact le_rfl
  refine ⟨h.watched, h.stamp.trans (rawSum_mono hmono), ?_⟩
  intro hv hsum
  by_cases hin : pageOf phys ∈ c.ranges.flatMap CodeRange.pages
  · have hlt : m.gen (pageOf phys) < (m.store w phys val).gen (pageOf phys) := by
      simp [Pages.store, h.watched _ hin]
    have := rawSum_lt hmono hin hlt
    have := h.stamp
    omega
  · have hram : ∀ r ∈ c.ranges, ∀ a, r.Contains a → (m.store w phys val).ram a = m.ram a := by
      intro r hr a ha
      refine write_of_not_mem ?_
      rw [Width.length_bytes]
      rintro ⟨hlo, hhi⟩
      have hpage : pageOf a = pageOf phys := by
        unfold pageOf
        cases w <;> simp only [Width.size] at halign hhi <;> omega
      exact hin (mem_flatMap.mpr ⟨r, hr, hpage ▸ mem_pages ha⟩)
    have hraw : m.rawSum c.ranges = (m.store w phys val).rawSum c.ranges := by
      refine congrArg sum (map_congr_left fun p hp => ?_)
      have hp' : p ≠ pageOf phys := fun heq => hin (heq ▸ hp)
      simp only [Pages.store]
      split_ifs <;> simp [hp']
    rw [crcOf_congr hram]
    exact h.trusted hv (hsum.trans hraw.symm)

theorem CandOk.restore (h : CandOk m kept c) (ram : Nat → Byte) : CandOk (m.restore ram) kept c := by
  have hmono : ∀ p, m.gen p ≤ (m.restore ram).gen p := fun p => Nat.le_succ _
  refine ⟨h.watched, h.stamp.trans (rawSum_mono hmono), ?_⟩
  intro hv hsum
  cases hp : c.ranges.flatMap CodeRange.pages with
  | cons p ps =>
    have hlt := rawSum_lt (q := p) hmono (hp ▸ mem_cons_self) (Nat.lt_succ_self _)
    have := h.stamp
    omega
  | nil =>
    -- no pages, so no code bytes
    have hram : ∀ r ∈ c.ranges, ∀ a, r.Contains a → (m.restore ram).ram a = m.ram a := by
      intro r hr a ha
      have : pageOf a ∈ c.ranges.flatMap CodeRange.pages := mem_flatMap.mpr ⟨r, hr, mem_pages ha⟩
      rw [hp] at this
      cases this
    rw [crcOf_congr hram]
    refine h.trusted hv (hsum.trans ?_)
    simp [Pages.rawSum, hp]

/-- What a candidate was compiled from; registration sets it for good. -/
def Candidate.code (c : Candidate) : List CodeRange × Word := (c.ranges, c.crcCode)

/-- The code is in RAM, or in the RAM that is to be put back. -/
def Trusted (m : Pages) (kept : Option (Nat → Byte)) (code : List CodeRange × Word) : Prop :=
  crcOf m.ram code.1 = code.2 ∨ ∃ ramI, kept = some ramI ∧ crcOf ramI code.1 = code.2

theorem candMatch_cases (m : Pages) (c : Candidate) :
    (m.candMatch c = (decide (c.state = .valid), c) ∧ m.gensum c.ranges = c.valGen) ∨
      ∃ b, m.candMatch c = (b, { c with valGen := m.gensum c.ranges }) ∧
        (b = true → crcOf m.ram c.ranges = c.crcCode) := by
  unfold Pages.candMatch
  by_cases hgen : m.gensum c.ranges = c.valGen ∧ c.state ≠ .blacklist
  · rw [if_pos hgen]
    exact .inl ⟨rfl, hgen.1⟩
  rw [if_neg hgen]
  refine .inr ?_
  cases c.probe with
  | none => exact ⟨_, rfl, of_decide_eq_true⟩
  | some w =>
    simp only
    split_ifs
    · exact ⟨_, rfl, of_decide_eq_true⟩
    · exact ⟨_, rfl, fun h => by cases h⟩

theorem candMatch_code (m : Pages) (c : Candidate) : (m.candMatch c).2.code = c.code := by
  rcases candMatch_cases m c with ⟨h, -⟩ | ⟨b, h, -⟩
  · rw [h]
  · rw [h]
    rfl

theorem CandOk.matched (h : CandOk m kept c) (hfit : m.rawSum c.ranges < 2 ^ 32)
    (hm : (m.candMatch c).1 = true) :
    CandOk m kept { (m.candMatch c).2 with state := .valid } ∧ Trusted m kept c.code := by
  rcases candMatch_cases m c with ⟨heq, hgen⟩ | ⟨b, heq, hb⟩
  · rw [heq] at hm ⊢
    have hv : c.state = .valid := of_decide_eq_true hm
    have hsum : c.valGen.toNat = m.rawSum c.ranges := by
      rw [← hgen, Pages.gensum, BitVec.toNat_ofNat, Nat.mod_eq_of_lt hfit]
    exact ⟨h.update rfl rfl fun _ => ⟨hv, rfl⟩, h.trusted hv hsum⟩
  · rw [heq] at hm ⊢
    exact ⟨.judged h.watched rfl fun _ => hb hm, .inl (hb hm)⟩

theorem CandOk.unmatched (h : CandOk m kept c) (st : EntryState) (hst : st ≠ .valid) :
    CandOk m kept { (m.candMatch c).2 with state := st } := by
  rcases candMatch_cases m c with ⟨heq, -⟩ | ⟨b, heq, -⟩ <;> rw [heq]
  · exact h.update rfl rfl fun hv => absurd hv hst
  · exact .judged h.watched rfl fun hv => absurd hv hst

theorem candResident_code (m : Pages) (c : Candidate) : (m.candResident c).2.code = c.code := by
  have h := candMatch_code m c
  unfold Pages.candResident
  cases hm : m.candMatch c with
  | mk b c' =>
    rw [hm] at h
    simp only
    split_ifs <;> exact h

theorem CandOk.resident (h : CandOk m kept c) (hfit : m.rawSum c.ranges < 2 ^ 32) :
    CandOk m kept (m.candResident c).2 ∧ ((m.candResident c).1 = true → Trusted m kept c.code) := by
  have hyes := h.matched hfit
  have hno := h.unmatched
  unfold Pages.candResident
  cases hm : m.candMatch c with
  | mk b c' =>
    rw [hm] at hyes hno
    cases b with
    | true => exact ⟨(hyes rfl).1, fun _ => (hyes rfl).2⟩
    | false =>
      simp only [Bool.false_eq_true, if_false]
      split_ifs with hv
      · exact ⟨hno _ (by simp), fun hf => by cases hf⟩
      · exact ⟨hno c'.state hv, fun hf => by cases hf⟩

end

/-! ## 3. Dispatch only judges -/

namespace State

def kept (s : State) : Option (Nat → Byte) := s.shadow.bind Shadow.ramI

def codes (s : State) : List (List CodeRange × Word) := s.cands.map Candidate.code

end State

/-- Every candidate is as it should be, and no sum of counters has wrapped. -/
structure Judgeable (s : State) : Prop where
  fits : ∀ code ∈ s.codes, s.mem.rawSum code.1 < 2 ^ 32
  ok : ∀ c ∈ s.cands, CandOk s.mem s.kept c

/-- Candidates are judged, and nothing else happens to them or to RAM. -/
structure Judges (s s' : State) : Prop where
  mem : s'.mem = s.mem
  shadow : s'.shadow = s.shadow
  active : s'.active = s.active
  codes : s'.codes = s.codes
  ok : Judgeable s → ∀ c ∈ s'.cands, CandOk s.mem s.kept c

section
variable {s s' s'' : State} {i : Nat} {c c' : Candidate}

theorem Judges.kept (h : Judges s s') : s'.kept = s.kept := by
  rw [State.kept, State.kept, h.shadow]

theorem Judges.judgeable (h : Judges s s') (hs : Judgeable s) : Judgeable s' where
  fits := by
    rw [h.codes, h.mem]
    exact hs.fits
  ok := by
    rw [h.mem, h.kept]
    exact h.ok hs

theorem Judges.refl (s : State) : Judges s s := ⟨rfl, rfl, rfl, rfl, Judgeable.ok⟩

theorem Judges.trans (h : Judges s s') (h' : Judges s' s'') : Judges s s'' where
  mem := h'.mem.trans h.mem
  shadow := h'.shadow.trans h.shadow
  active := h'.active.trans h.active
  codes := h'.codes.trans h.codes
  ok hs := by
    rw [← h.mem, ← h.kept]
    exact h'.ok (h.judgeable hs)

theorem Judgeable.cand (h : Judgeable s) (hc : s.cands[i]? = some c) :
    CandOk s.mem s.kept c ∧ s.mem.rawSum c.ranges < 2 ^ 32 :=
  have hmem := mem_of_getElem? hc
  ⟨h.ok c hmem, h.fits c.code (mem_map_of_mem hmem)⟩

theorem Judges.setCand (hc : s.cands[i]? = some c) (hcode : c'.code = c.code)
    (hok : Judgeable s → CandOk s.mem s.kept c') : Judges s (s.setCand i c') where
  mem := rfl
  shadow := rfl
  active := rfl
  codes := by
    obtain ⟨hi, rfl⟩ := List.getElem?_eq_some_iff.mp hc
    rw [State.codes, setCand, map_set, hcode]
    refine ext_getElem (by simp [State.codes]) fun j h₁ h₂ => ?_
    rw [getElem_set]
    split_ifs with hj
    · subst hj
      simp [State.codes]
    · rfl
  ok hs d hd := by
    rcases mem_or_eq_of_mem_set hd with hd | rfl
    · exact hs.ok d hd
    · exact hok hs

theorem tryResident_judges (s : State) (phys i : Nat) : Judges s (s.tryResident phys i).1 := by
  unfold tryResident
  cases hc : s.cands[i]? with
  | none => exact .refl s
  | some c =>
    simp only
    split_ifs
    · exact .refl s
    · exact .setCand hc (candResident_code _ c) fun hs => ((hs.cand hc).1.resident (hs.cand hc).2).1

theorem scanBucket_judges (phys : Nat) (is : List Nat) (s : State) :
    Judges s (scanBucket phys is s).1 := by
  induction is generalizing s with
  | nil => exact .refl s
  | cons i is ih =>
    have h := tryResident_judges s phys i
    unfold scanBucket
    cases hr : s.tryResident phys i with
    | mk s' b =>
      rw [hr] at h
      cases b with
      | true => exact h.trans ⟨rfl, rfl, rfl, rfl, Judgeable.ok⟩
      | false => exact h.trans (ih s')

theorem overlayFindByRange_judges (phys : Nat) (s : State) :
    Judges s (overlayFindByRange phys s).1 := by
  unfold overlayFindByRange
  split_ifs
  · exact .refl s
  simp only
  cases (s.buckets (phys / 256)).hint with
  | none => exact scanBucket_judges phys _ s
  | some i =>
    have h := tryResident_judges s phys i
    simp only
    cases hr : s.tryResident phys i with
    | mk s' b =>
      rw [hr] at h
      cases b with
      | true => exact h
      | false => exact h.trans (scanBucket_judges phys _ s')

def Resident (s : State) (i : Nat) : Prop :=
  ∃ code, s.codes[i]? = some code ∧ crcOf s.mem.ram code.1 = code.2

theorem codes_getElem? (hc : s.cands[i]? = some c) : s.codes[i]? = some c.code := by
  rw [codes, getElem?_map, hc]
  rfl

theorem Judges.resident (h : Judges s s') (hnone : s'.shadow = none) (hc : s.cands[i]? = some c)
    (ht : Trusted s.mem s.kept c.code) : Resident s' i := by
  refine ⟨c.code, by rw [h.codes]; exact codes_getElem? hc, ?_⟩
  rw [h.mem]
  rcases ht with ht | ⟨ramI, hk, -⟩
  · exact ht
  · rw [State.kept, ← h.shadow, hnone] at hk
    cases hk

/-- What a dispatch leads to: a call or a differential only of a resident candidate, and only outside a
differential. -/
def OutcomeOk (s : State) (o : Outcome) : Prop :=
  ∀ i, o = .call i ∨ o = .shadow i → s.shadow = none ∧ Resident s i

theorem outcomeOk_interp (s : State) : OutcomeOk s .interp := by
  rintro i (h | h) <;> cases h

theorem outcomeOk_outcome (sw : Switches) (c : Candidate) (h : s.shadow = none → Resident s i) :
    OutcomeOk s (sw.outcome s i c) := by
  unfold Switches.outcome
  split_ifs with hdev hdiff hrun
  · exact outcomeOk_interp s
  · rintro j (hj | hj)
    · cases hj
    · cases hj
      simp only [Bool.and_eq_true, isNone_iff_eq_none] at hdiff
      exact ⟨hdiff.1.2, h hdiff.1.2⟩
  · exact outcomeOk_interp s
  · rintro j (hj | hj)
    · cases hj
      simp only [Bool.or_eq_true, Bool.not_eq_true', not_or, Bool.not_eq_false, Switches.mayRun,
        Bool.and_eq_true, isNone_iff_eq_none] at hrun
      exact ⟨hrun.1.2, h hrun.1.2⟩
    · cases hj

variable (sw : Switches)

theorem tryChain_ok (is : List Nat) (s : State) : Judges s (sw.tryChain is s).1 ∧
    (Judgeable s → OutcomeOk (sw.tryChain is s).1 (sw.tryChain is s).2) := by
  induction is generalizing s with
  | nil => exact ⟨.refl s, fun _ => outcomeOk_interp s⟩
  | cons i is ih =>
    unfold Switches.tryChain
    cases hc : s.cands[i]? with
    | none => exact ih s
    | some c =>
      have hcode := candMatch_code s.mem c
      have hyes (hs : Judgeable s) := (hs.cand hc).1.matched (hs.cand hc).2
      simp only
      split_ifs with hb hm
      · exact ih s
      · have hj : Judges s (s.setCand i { (s.mem.candMatch c).2 with state := .valid }) :=
          .setCand hc hcode fun hs => (hyes hs hm).1
        exact ⟨hj, fun hs => outcomeOk_outcome sw _ fun hn => hj.resident hn hc (hyes hs hm).2⟩
      · have hj : Judges s (s.setCand i { (s.mem.candMatch c).2 with state := .invalid }) :=
          .setCand hc hcode fun hs => (hs.cand hc).1.unmatched .invalid (by simp)
        exact ⟨hj.trans (ih _).1, fun hs => (ih _).2 (hj.judgeable hs)⟩

theorem reenter_ok (phys : Nat) (s : State) : Judges s (sw.reenter phys s).1 ∧
    (Judgeable s → OutcomeOk (sw.reenter phys s).1 (sw.reenter phys s).2) := by
  have hfind := overlayFindByRange_judges phys s
  unfold Switches.reenter
  cases hf : overlayFindByRange phys s with
  | mk s' found =>
    rw [hf] at hfind
    cases found with
    | none => exact ⟨hfind, fun _ => outcomeOk_interp s'⟩
    | some i =>
      simp only
      cases hc : s'.cands[i]? with
      | none => exact ⟨hfind, fun _ => outcomeOk_interp s'⟩
      | some c =>
        have hres (hs : Judgeable s') := (hs.cand hc).1.resident (hs.cand hc).2
        have hj : Judges s' (s'.setCand i (s'.mem.candResident c).2) :=
          .setCand hc (candResident_code _ c) fun hs => (hres hs).1
        simp only
        split_ifs with hrun
        · refine ⟨hfind.trans hj, fun hs => ?_⟩
          simp only [Bool.and_eq_true, Switches.mayRun, isNone_iff_eq_none] at hrun
          have htrust := (hres (hfind.judgeable hs)).2 hrun.1.1.1.1
          rintro j (hji | hji)
          · cases hji
            exact ⟨hrun.1.1.2.2, hj.resident hrun.1.1.2.2 hc htrust⟩
          · cases hji
        · exact ⟨hfind.trans hj, fun _ => outcomeOk_interp _⟩

/-- A dispatch judges candidates and does nothing else, and what it calls is resident. -/
theorem dispatchImpl_ok (addr : Word) (s : State) : Judges s (sw.dispatchImpl addr s).1 ∧
    (Judgeable s → OutcomeOk (sw.dispatchImpl addr s).1 (sw.dispatchImpl addr s).2) := by
  unfold Switches.dispatchImpl
  simp only
  split_ifs
  · exact ⟨.refl s, fun _ => outcomeOk_interp s⟩
  · exact reenter_ok sw _ s
  · exact tryChain_ok sw _ s

end

/-! ## 4. Histories -/

/-- Where a step of a history must not do harm. Only two of the conditions are about what the loader
gets wrong: a shard comes back with its stored hash when its code is in RAM, and the passes of a
differential leave the same RAM. Stores are aligned, and no sum of counters wraps. -/
def OpOk (op : Op) (s : State) : Prop :=
  match op with
  | .registerSljit _ range crcOverride =>
    crcOverride ≠ 0#32 → crcOf s.mem.ram [range] = crcOverride
  | .store w phys _ => phys % w.size = 0
  | .dispatch _ _ => ∀ c ∈ s.cands, s.mem.rawSum c.ranges < 2 ^ 32
  | .shadowEnd _ => ∀ ramI, s.kept = some ramI → ∀ a < ramSize, s.mem.ram a = ramI a
  | _ => True

structure Sound (s : State) : Prop where
  cands : ∀ c ∈ s.cands, CandOk s.mem s.kept c
  /-- the candidate of a differential was resident when it started -/
  shadow : ∀ sh, s.shadow = some sh →
    ∃ code, s.codes[sh.cand]? = some code ∧ crcOf sh.ram0 code.1 = code.2

section
variable {s s' : State} {op : Op} {called : Option Nat} {i : Nat}

variable {c : Candidate}

theorem Sound.register (h : Sound s) {ranges : List CodeRange} {buckets : Nat → Bucket}
    {cands : List Candidate} (hcodes : cands.map Candidate.code = s.codes)
    (hcands : ∀ d ∈ cands, CandOk (s.mem.watch ranges) s.kept d)
    (hc : CandOk (s.mem.watch ranges) s.kept c) :
    Sound { s with mem := s.mem.watch ranges, cands := cands ++ [c], buckets := buckets } where
  cands d hd := by
    rcases mem_append.mp hd with hd | hd
    · exact hcands d hd
    · rw [mem_singleton.mp hd]
      exact hc
  shadow sh hsh := by
    obtain ⟨code, hcode, hcrc⟩ := h.shadow sh hsh
    rw [← hcodes] at hcode
    refine ⟨code, ?_, hcrc⟩
    rw [codes, map_append, getElem?_append_left (List.getElem?_eq_some_iff.mp hcode).1, hcode]

theorem watch_watched (m : Pages) (ranges : List CodeRange) :
    ∀ p ∈ ranges.flatMap CodeRange.pages, (m.watch ranges).watched p = true := by
  intro p hp
  rw [Pages.watch, Bool.or_eq_true]
  exact .inr (decide_eq_true hp)

theorem Sound.candRegister (h : Sound s) (phys : Nat) (ranges : List CodeRange)
    (crc probe : Option Word) : Sound (s.candRegister phys ranges crc probe) := by
  unfold State.candRegister
  split_ifs
  · exact h
  extract_lets mem live crcCode c retire
  have hwatch : ∀ d ∈ s.cands, CandOk mem s.kept d := fun d hd => (h.cands d hd).watch ranges
  refine h.register ?_ ?_ ?_
  · split_ifs
    · rw [List.map_map]
      refine map_congr_left fun d _ => ?_
      simp only [Function.comp_apply, retire]
      split_ifs <;> rfl
    · rfl
  · split_ifs
    · intro d hd
      obtain ⟨o, ho, rfl⟩ := mem_map.mp hd
      simp only [retire]
      split_ifs
      · exact (hwatch o ho).update rfl rfl (by simp)
      · exact hwatch o ho
    · exact hwatch
  · refine .judged (watch_watched _ _) rfl fun hv => ?_
    by_contra hne
    simp [c, show ¬ live = crcCode from hne] at hv

theorem Sound.registerSljit (h : Sound s) (phys : Nat) {range : CodeRange} {crcOverride : Word}
    (hcrc : crcOverride ≠ 0#32 → crcOf s.mem.ram [range] = crcOverride) :
    Sound (s.registerSljitCandidate phys range crcOverride) := by
  unfold registerSljitCandidate
  by_cases hfull : s.candCap ≤ s.cands.length ∨ range.len = 0
  · rw [if_pos hfull]
    exact h
  · rw [if_neg hfull]
    refine h.register rfl (fun d hd => (h.cands d hd).watch _) ?_
    refine .judged (watch_watched _ _) rfl fun _ => ?_
    by_cases h0 : crcOverride = 0#32
    · exact (if_pos h0).symm
    · exact (hcrc h0).trans (if_neg h0).symm

theorem Sound.of_codes (h : Sound s) (hcodes : s'.codes = s.codes) (hshadow : s'.shadow = s.shadow)
    (hcands : ∀ c ∈ s'.cands, CandOk s'.mem s'.kept c) : Sound s' where
  cands := hcands
  shadow := by
    rw [hcodes, hshadow]
    exact h.shadow

theorem Sound.store (h : Sound s) {w : Width} {phys : Nat} (val : Word)
    (halign : phys % w.size = 0) : Sound (s.store w phys val) := by
  have hstored : Sound { s with mem := s.mem.store w phys val } :=
    h.of_codes rfl rfl fun c hc => (h.cands c hc).store val halign
  unfold State.store
  split_ifs
  · refine hstored.of_codes ?_ rfl ?_
    · refine ext_getElem? fun i => ?_
      simp only [codes, activeWriteCheck, getElem?_map, getElem?_mapIdx,
        Option.map_map]
      refine congrArg (fun f => Option.map f s.cands[i]?) (funext fun c => ?_)
      simp only [Function.comp_apply]
      split_ifs <;> rfl
    · intro d hd
      obtain ⟨i, hi, rfl⟩ := mem_mapIdx.mp hd
      have hc := hstored.cands _ (getElem_mem hi)
      split_ifs
      · exact hc.update rfl rfl (by simp)
      · exact hc
  · exact hstored

theorem mem_modify {l : List Candidate} {f : Candidate → Candidate} {d : Candidate}
    (h : d ∈ l.modify i f) : ∃ c ∈ l, d = c ∨ d = f c := by
  obtain ⟨j, hj⟩ := mem_iff_getElem?.mp h
  rw [getElem?_modify] at hj
  cases hl : l[j]? with
  | none =>
    rw [hl] at hj
    cases hj
  | some c =>
    rw [hl] at hj
    refine ⟨c, mem_of_getElem? hl, ?_⟩
    split_ifs at hj
    · exact .inr (some.inj hj).symm
    · exact .inl (some.inj hj).symm

theorem CandOk.shadowNative {m : Pages} (h : CandOk m none c) (ram0 : Nat → Byte) :
    CandOk { m with ram := ram0 } (some m.ram) c where
  watched := h.watched
  stamp := h.stamp
  trusted hv hsum := by
    rcases h.trusted hv hsum with hcrc | ⟨ramI, hk, -⟩
    · exact .inr ⟨m.ram, rfl, hcrc⟩
    · cases hk

theorem CandOk.shadowEnd {m : Pages} {ramI : Nat → Byte} (h : CandOk m (some ramI) c)
    (hsame : ∀ a < ramSize, m.ram a = ramI a) : CandOk { m with ram := ramI } none c where
  watched := h.watched
  stamp := h.stamp
  trusted hv hsum := by
    rcases h.trusted hv hsum with hcrc | ⟨ramI', hk, hcrc⟩
    · refine .inl (Eq.trans (crcOf_congr fun r _ a ha => ?_) hcrc)
      have := r.inRam
      obtain ⟨-, hhi⟩ := ha
      exact (hsame a (by omega)).symm
    · cases hk
      exact .inl hcrc

theorem Sound.dispatch (h : Sound s) (sw : Switches) (addr : Word)
    (hfit : ∀ c ∈ s.cands, s.mem.rawSum c.ranges < 2 ^ 32)
    (hstep : step (.dispatch sw addr) s = some (s', called)) :
    Sound s' ∧ ∀ i, called = some i → Resident s' i := by
  have hs : Judgeable s :=
    ⟨by
      intro code hcode
      obtain ⟨c, hc, rfl⟩ := mem_map.mp hcode
      exact hfit c hc, h.cands⟩
  obtain ⟨hj, hout⟩ := (dispatchImpl_ok sw addr s).imp_right (· hs)
  simp only [step] at hstep
  cases hd : sw.dispatchImpl addr s with
  | mk t o =>
    rw [hd] at hj hout hstep
    have ht : Sound t := h.of_codes hj.codes hj.shadow (hj.judgeable hs).ok
    cases o with
    | interp =>
      cases hstep
      exact ⟨ht, by simp⟩
    | call i =>
      cases hstep
      refine ⟨ht.of_codes rfl rfl ht.cands, fun j hj' => ?_⟩
      cases hj'
      exact (hout i (.inl rfl)).2
    | shadow i =>
      cases hstep
      obtain ⟨hnone, code, hcode, hcrc⟩ := hout i (.inr rfl)
      have hkept : t.kept = none := by rw [kept, hnone]; rfl
      refine ⟨⟨fun c hc => hkept ▸ ht.cands c hc, ?_⟩, fun j hj' => by cases hj'⟩
      rintro sh hsh
      cases hsh
      exact ⟨code, hcode, hcrc⟩

theorem Sound.step (h : Sound s) (hok : OpOk op s) (hstep : step op s = some (s', called)) :
    Sound s' ∧ ∀ i, called = some i → Resident s' i := by
  cases op with
  | candRegister phys ranges crc probe =>
    cases hstep
    exact ⟨h.candRegister phys ranges crc probe, by simp⟩
  | registerSljit phys range crcOverride =>
    cases hstep
    exact ⟨h.registerSljit phys hok, by simp⟩
  | store w phys val =>
    cases hstep
    exact ⟨h.store val hok, by simp⟩
  | restore ram =>
    cases hstep
    exact ⟨h.of_codes rfl rfl fun c hc => (h.cands c hc).restore ram, by simp⟩
  | dispatch sw addr => exact h.dispatch sw addr hok hstep
  | leave =>
    cases hstep
    exact ⟨h.of_codes rfl rfl h.cands, by simp⟩
  | shadowDevice =>
    simp only [Overlay.step] at hstep
    split at hstep
    · rename_i i ram0 hsh
      cases hstep
      have hkept : s.kept = none := by rw [kept, hsh]; rfl
      have hcands : ∀ c ∈ s.cands, CandOk s.mem none c := fun c hc => hkept ▸ h.cands c hc
      refine ⟨⟨?_, fun sh hsh' => by cases hsh'⟩, by simp⟩
      intro d hd
      obtain ⟨c, hc, rfl | rfl⟩ := mem_modify hd
      · exact hcands _ hc
      · exact (hcands c hc).update rfl rfl fun hv => ⟨hv, rfl⟩
    · cases hstep
  | shadowNative =>
    simp only [Overlay.step] at hstep
    split at hstep
    · rename_i i ram0 hsh
      cases hstep
      have hkept : s.kept = none := by rw [kept, hsh]; rfl
      obtain ⟨code, hcode, hcrc⟩ := h.shadow _ hsh
      refine ⟨⟨fun c hc => CandOk.shadowNative (hkept ▸ h.cands c hc) ram0, ?_⟩, ?_⟩
      · rintro sh hsh'
        cases hsh'
        exact ⟨code, hcode, hcrc⟩
      · intro j hj
        cases hj
        exact ⟨code, hcode, hcrc⟩
    · cases hstep
  | shadowEnd regsSame =>
    simp only [Overlay.step] at hstep
    split at hstep
    · rename_i i ram0 ramI hsh
      cases hstep
      have hkept : s.kept = some ramI := by rw [kept, hsh]; rfl
      refine ⟨⟨?_, fun sh hsh' => by cases hsh'⟩, by simp⟩
      intro d hd
      have hend : ∀ c ∈ s.cands, CandOk { s.mem with ram := ramI } none c := fun c hc =>
        CandOk.shadowEnd (hkept ▸ h.cands c hc) (hok ramI hkept)
      obtain ⟨c, hc, rfl | rfl⟩ := mem_modify hd
      · exact hend _ hc
      · exact (hend c hc).update rfl rfl fun hv => ⟨hv, rfl⟩
    · cases hstep

/-- The states of the histories whose steps meet `OpOk`. -/
def Reached : State → Prop :=
  Runs.Reached (fun op s => (step op s).map Prod.fst) OpOk fun s => s.cands = [] ∧ s.shadow = none

theorem Reached.sound (h : Reached s) : Sound s := by
  refine Runs.Reached.invariant ?_ ?_ h
  · rintro s ⟨hc, hsh⟩
    refine ⟨fun c hc' => ?_, fun sh hsh' => ?_⟩
    · rw [hc] at hc'
      cases hc'
    · rw [hsh] at hsh'
      cases hsh'
  · intro op s s' hs hok heq
    obtain ⟨⟨t, called⟩, hstep, rfl⟩ := map_eq_some_iff.mp heq
    exact (hs.step hok hstep).1

/-- **Native code runs on the bytes it was compiled from**: when a step of such a history calls a
candidate's function, its hash is that of its code ranges in RAM. -/
theorem native_runs_on_its_bytes (h : Reached s) (hok : OpOk op s)
    (hstep : step op s = some (s', some i)) :
    ∃ c, s'.cands[i]? = some c ∧ crcOf s'.mem.ram c.ranges = c.crcCode := by
  obtain ⟨code, hcode, hcrc⟩ := (h.sound.step hok hstep).2 i rfl
  rw [codes, getElem?_map, map_eq_some_iff] at hcode
  obtain ⟨c, hc, rfl⟩ := hcode
  exact ⟨c, hc, hcrc⟩

end

def bootState : State where
  mem := ⟨fun _ => 0#8, fun _ => false, fun _ => 0⟩
  cands := []
  candCap := 4
  buckets := fun _ => {}
  active := []
  shadow := none

def runNative : Switches where
  regionFloor := 0x10000
  cpsMode := false
  nativeExec := true
  diffMode := false
  sljitLive := false
  nativeBlock := []

/-- The word at `0x10000`. -/
def oneWord : CodeRange := ⟨0x10000, 4, by decide⟩

/-- A shard that was made in this session, dispatched. -/
theorem native_runs_on_its_bytes_jitted :
    ∃ s', step (.dispatch runNative 0x80010000#32)
        (bootState.registerSljitCandidate 0x10000 oneWord 0#32) = some (s', some 0) ∧
      ∃ c, s'.cands[0]? = some c ∧ crcOf s'.mem.ram c.ranges = c.crcCode := by
  have hreached : Reached (bootState.registerSljitCandidate 0x10000 oneWord 0#32) :=
    .next (s := bootState) (a := .registerSljit 0x10000 oneWord 0#32) (.start ⟨rfl, rfl⟩)
      (fun h => absurd rfl h) rfl
  have hfit : OpOk (.dispatch runNative 0x80010000#32)
      (bootState.registerSljitCandidate 0x10000 oneWord 0#32) := by
    intro c hc
    rw [mem_singleton.mp hc]
    decide
  exact ⟨_, rfl, native_runs_on_its_bytes hreached hfit rfl⟩

/-- A shard reloaded with a stored hash, while RAM is empty: the dispatch calls it, and the hash is not
that of RAM. -/
theorem reloaded_shard_runs_unjudged :
    let s := bootState.registerSljitCandidate 0x10000 oneWord 0x12345678#32
    (step (.dispatch runNative 0x80010000#32) s).map
        (fun r => (r.2, r.1.cands.map fun c => decide (crcOf r.1.mem.ram c.ranges = c.crcCode))) =
      some (some 0, [false]) := by
  decide +kernel

-- A verdict reached in the native pass of a differential outlives the pass: it writes the code of the
-- other candidate and dispatches it, RAM is put back, and the candidate is called.
example :
    let other : CodeRange := ⟨0x20000, 4, by decide⟩
    let code := crcOf (fun a => if a = 0x20000 then 1#8 else 0#8) [other]
    let ops : List Op :=
      [.candRegister 0x10000 [oneWord] none none, .candRegister 0x20000 [other] (some code) none,
        .dispatch { runNative with diffMode := true } 0x80010000#32, .shadowNative,
        .store .word 0x20000 1#32, .dispatch runNative 0x80020000#32, .shadowEnd false,
        .dispatch runNative 0x80020000#32]
    (ops.foldl (fun r op => r.bind fun r => step op r.1) (some (bootState, none))).map
        (fun r => (r.2, r.1.cands.map fun c => decide (crcOf r.1.mem.ram c.ranges = c.crcCode))) =
      some (some 1, [true, false]) := by
  decide +kernel

end PsxRecomp.Overlay
