import Mathlib.Data.Finset.Card
import Mathlib.Data.Finset.Dedup

/-!
# `Lib/Explore.lean` — the nodes reached from a work list

A stack of nodes to visit; a node that was not visited yet is marked and its successors are pushed.
Nodes outside the graph are skipped.
-/

set_option autoImplicit false

namespace Explore

open List

variable {α : Type} [DecidableEq α] (nodes : List α) (succ : α → List α)

def explore (work live : List α) : List α :=
  match work with
  | [] => live
  | b :: work =>
    if _h : b ∈ live ∨ b ∉ nodes then explore work live
    else explore ((succ b).reverse ++ work) (b :: live)
termination_by ((nodes.toFinset.filter (· ∉ live)).card, work.length)
decreasing_by
  · exact Prod.Lex.right _ (Nat.lt_succ_self _)
  · obtain ⟨hnew, hnode⟩ := not_or.mp _h
    refine Prod.Lex.left _ _ (Finset.card_lt_card ?_)
    refine (Finset.ssubset_iff_of_subset ?_).mpr ⟨b, ?_, ?_⟩
    · apply Finset.monotone_filter_right
      intro x _ hx hlive
      exact hx (mem_cons_of_mem _ hlive)
    · simpa using ⟨not_not.mp hnode, hnew⟩
    · simp

variable {nodes succ} {work live : List α} {b : α}

/-- What is marked stays marked. -/
theorem mem_of_live (h : b ∈ live) : b ∈ explore nodes succ work live := by
  fun_induction explore nodes succ work live with
  | case1 => exact h
  | case2 _ _ _ _ ih => exact ih h
  | case3 _ _ _ _ ih => exact ih (mem_cons_of_mem _ h)

/-- Everything on the stack ends up marked. -/
theorem mem_of_work (h : b ∈ work) (hb : b ∈ nodes) : b ∈ explore nodes succ work live := by
  fun_induction explore nodes succ work live with
  | case1 => cases h
  | case2 live x work hx ih =>
    rcases mem_cons.mp h with rfl | h
    · exact mem_of_live (hx.resolve_right (not_not_intro hb))
    · exact ih h
  | case3 live x work hx ih =>
    rcases mem_cons.mp h with rfl | h
    · exact mem_of_live mem_cons_self
    · exact ih (mem_append_right _ h)

/-- The marked nodes are closed under successors. -/
theorem closed (h : ∀ b ∈ live, ∀ s ∈ succ b, s ∈ nodes → s ∈ live ∨ s ∈ work)
    (hb : b ∈ explore nodes succ work live) {s : α} (hs : s ∈ succ b) (hn : s ∈ nodes) :
    s ∈ explore nodes succ work live := by
  fun_induction explore nodes succ work live with
  | case1 live => exact (h b hb s hs hn).resolve_right (not_mem_nil)
  | case2 live x work hx ih =>
    refine ih (fun b hb s hs hn => ?_) hb
    rcases h b hb s hs hn with hl | hw
    · exact .inl hl
    · rcases mem_cons.mp hw with rfl | hw
      · exact .inl (hx.resolve_right (not_not_intro hn))
      · exact .inr hw
  | case3 live x work hx ih =>
    refine ih (fun b hb s hs hn => ?_) hb
    rcases mem_cons.mp hb with rfl | hb
    · exact .inr (mem_append_left _ (List.mem_reverse.mpr hs))
    · rcases h b hb s hs hn with hl | hw
      · exact .inl (mem_cons_of_mem _ hl)
      · rcases mem_cons.mp hw with rfl | hw
        · exact .inl mem_cons_self
        · exact .inr (mem_append_right _ hw)

end Explore
