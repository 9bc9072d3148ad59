import Mathlib.Data.List.GetD
import Mathlib.Data.List.Nodup
import PsxRecomp.Lib.BinSearch
import PsxRecomp.Bios.AddressMap

/-!
# `Bios/Dispatch.lean` — the dispatch table of the generated BIOS

`FullFunctionEmitter::emit_dispatch` (`full_function_emitter.cpp`) writes `dispatch_table`: first the
handlers of the configured aliases and vectors, in the order of the configuration, then the emitted
functions and continuations in order of their keys. `psx_dispatch_impl` looks a key up in it by binary
search. A comment says that the handlers come first because their addresses are the smallest; nothing
checks it.
-/

set_option autoImplicit false

namespace PsxRecomp.Bios

open List

/-! ## 1. The table -/

/-- `[[recompiler.bios_vectors]]` -/
structure BiosVectorTable where
  ramAddr : Word
  tableRomAddr : Word
  tableCount : Word

/-- `[[recompiler.bios_aliases]]` -/
structure BiosAlias where
  ramAddr : Word
  targetKey : Word

structure ContinuationLabel where
  parentFuncNorm : Word
  romAddr : Word

/-- A `std::set<uint32_t>`, in the order it is walked in. -/
structure KeySet where
  keys : List Word
  increasing : keys.Pairwise (· < ·)

inductive FuncName
  | func (norm : Word)
  | cont (parentFuncNorm romAddr : Word)
  | biosAlias (ramAddr : Word)
  | biosVec (ramAddr : Word)
deriving DecidableEq

structure DispatchEntry where
  addr : Word
  func : FuncName
deriving DecidableEq

structure DispatchInput where
  emitted : KeySet
  continuations : Word → Option ContinuationLabel
  baseAddr : Word
  romSize : Word
  biosVectors : List BiosVectorTable
  biosAliases : List BiosAlias

namespace DispatchInput
variable (d : DispatchInput)

/-- An alias of a function that was not emitted is skipped. -/
def keepsAlias (a : BiosAlias) : Bool := decide (a.targetKey ∈ d.emitted.keys)

def keepsVector (v : BiosVectorTable) : Bool :=
  let basePhys := physical d.baseAddr
  let tablePhys := physical v.tableRomAddr
  !(tablePhys < basePhys || basePhys + d.romSize < tablePhys + v.tableCount * 4#32)

/-- `vec_handlers` -/
def handlers : List DispatchEntry :=
  (d.biosAliases.filter d.keepsAlias).map (fun a => ⟨a.ramAddr, .biosAlias a.ramAddr⟩) ++
    (d.biosVectors.filter d.keepsVector).map (fun v => ⟨v.ramAddr, .biosVec v.ramAddr⟩)

def emittedEntry (norm : Word) : DispatchEntry :=
  match d.continuations norm with
  | some cl => ⟨norm, .cont cl.parentFuncNorm cl.romAddr⟩
  | none => ⟨norm, .func norm⟩

def dispatchTable : List DispatchEntry := d.handlers ++ d.emitted.keys.map d.emittedEntry

@[simp] theorem emittedEntry_addr (norm : Word) : (d.emittedEntry norm).addr = norm := by
  unfold emittedEntry
  cases d.continuations norm <;> rfl

/-- The configured addresses of the aliases and vectors that are not skipped, in the order of the
configuration. -/
def handlerAddrs : List Word :=
  (d.biosAliases.filter d.keepsAlias).map BiosAlias.ramAddr ++
    (d.biosVectors.filter d.keepsVector).map BiosVectorTable.ramAddr

theorem dispatchTable_keys :
    d.dispatchTable.map DispatchEntry.addr = d.handlerAddrs ++ d.emitted.keys := by
  simp [dispatchTable, handlers, handlerAddrs, Function.comp_def]

end DispatchInput

/-- The search of `psx_dispatch_impl`, over the keys of the table. -/
def findKey (keys : List Word) (phys : Word) : Option Nat :=
  BinSearch.search (fun i => keys.getD i 0#32) phys keys.length 0 (keys.length - 1)

/-! ## 2. Completeness -/

/-- Every stored key leads to an entry with that key and no entry hides another, and a key that is not
stored is a miss. -/
structure Complete (keys : List Word) : Prop where
  found : ∀ key ∈ keys, ∃ i, findKey keys key = some i ∧ keys[i]? = some key
  unshadowed : keys.Nodup
  missed : ∀ key, key ∉ keys → findKey keys key = none

section
variable {keys : List Word} {key : Word} {i : Nat}

theorem findKey_sound (h : findKey keys key = some i) : keys[i]? = some key := by
  obtain ⟨-, hi, hkey⟩ := BinSearch.search_sound le_rfl h
  have hlt : i < keys.length := by omega
  rw [getD_eq_getElem _ _ hlt] at hkey
  rw [List.getElem?_eq_getElem hlt, hkey]

theorem findKey_of_not_mem (h : key ∉ keys) : findKey keys key = none := by
  cases hf : findKey keys key with
  | none => rfl
  | some i => exact absurd (mem_of_getElem? (findKey_sound hf)) h

theorem complete_iff_findsEach : Complete keys ↔
    BinSearch.FindsEach (fun i => keys.getD i 0#32) keys.length 0 (keys.length - 1) := by
  constructor
  · intro h i _ hi
    have hlt : i < keys.length := by omega
    obtain ⟨j, hj, hkey⟩ := h.found _ (getElem_mem hlt)
    simp only [getD_eq_getElem _ _ hlt]
    obtain ⟨hlt', hkey⟩ := List.getElem?_eq_some_iff.mp hkey
    rw [(Nodup.getElem_inj_iff h.unshadowed).mp hkey] at hj
    exact hj
  · intro h
    have hself : ∀ i (hi : i < keys.length), findKey keys keys[i] = some i := by
      intro i hi
      have hf := h i (by omega) (by omega)
      simp only [getD_eq_getElem _ _ hi] at hf
      exact hf
    refine ⟨?_, ?_, fun key => findKey_of_not_mem⟩
    · intro key hkey
      obtain ⟨i, hi, rfl⟩ := getElem_of_mem hkey
      exact ⟨i, hself i hi, List.getElem?_eq_getElem hi⟩
    · refine List.nodup_iff_injective_get.mpr ?_
      rintro ⟨i, hi⟩ ⟨j, hj⟩ heq
      have hkey : keys[i] = keys[j] := heq
      have hfi := hself i hi
      rw [hkey, hself j hj] at hfi
      cases hfi
      rfl

theorem complete_iff_increasing : Complete keys ↔ keys.Pairwise (· < ·) := by
  rw [complete_iff_findsEach, BinSearch.findsEach_iff le_rfl (by omega), pairwise_iff_getElem]
  constructor
  · intro h i j hi hj hij
    have hlt := h i j (by omega) hij (by omega)
    simpa only [getD_eq_getElem _ _ hi, getD_eq_getElem _ _ hj] using hlt
  · intro h i j _ hij hj
    have hj' : j < keys.length := by omega
    simpa only [getD_eq_getElem _ _ (hij.trans hj'), getD_eq_getElem _ _ hj'] using
      h i j (hij.trans hj') hj' hij

end

/-- **Which configurations give a table that the search can use**: those whose handlers' addresses
increase and lie below every emitted key. -/
theorem dispatch_complete_iff (d : DispatchInput) :
    Complete (d.dispatchTable.map DispatchEntry.addr) ↔
      d.handlerAddrs.Pairwise (· < ·) ∧ ∀ addr ∈ d.handlerAddrs, ∀ key ∈ d.emitted.keys, addr < key := by
  rw [complete_iff_increasing, d.dispatchTable_keys, pairwise_append]
  simp [d.emitted.increasing, true_and]

/-- The alias of the SIO handler, `0x0CF0`, with one function below it and one above. -/
def sioAlias : DispatchInput where
  emitted := ⟨[0x500#32, 0x641C#32], by decide⟩
  continuations := fun _ => none
  baseAddr := 0xBFC00000#32
  romSize := 0x80000#32
  biosVectors := []
  biosAliases := [⟨0xCF0#32, 0x641C#32⟩]

/-- It is the first entry of the table, and the search does not find it. -/
theorem dispatch_alias_missed :
    (sioAlias.dispatchTable.map DispatchEntry.addr).head? = some 0xCF0#32 ∧
      findKey (sioAlias.dispatchTable.map DispatchEntry.addr) 0xCF0#32 = none := by
  decide

end PsxRecomp.Bios
