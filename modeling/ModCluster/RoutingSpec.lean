import ModCluster.Routing
import Mathlib.Data.List.Nodup
import Mathlib.Data.List.Infix

/-!
# What the context search finds

A call of the search serves the longest matching contexts of its balancer that are
open to the request.
-/

open CString Slotmem

namespace ModCluster

/-! ## Longest matches -/

theorem le_maxLength {n : Nat} {l : List Nat} (h : n ∈ l) : n ≤ maxLength l := by
  induction l with
  | nil => cases h
  | cons m rest ih =>
    rw [maxLength]
    rcases List.mem_cons.mp h with rfl | h
    · exact Nat.le_max_left _ _
    · exact Nat.le_trans (ih h) (Nat.le_max_right _ _)

theorem maxLength_mem {l : List Nat} (h : maxLength l ≠ 0) : maxLength l ∈ l := by
  induction l with
  | nil => exact absurd rfl h
  | cons m rest ih =>
    rw [maxLength] at h ⊢
    rcases Nat.le_total (maxLength rest) m with hle | hle
    · rw [Nat.max_eq_left hle]
      exact List.mem_cons_self
    · rw [Nat.max_eq_right hle] at h ⊢
      exact List.mem_cons_of_mem _ (ih h)

variable {useAlias : Bool} {s : Snapshot} {conf : List ProxyBalancer} {r : Request}
  {balancer : Option ProxyBalancer} {route : Option Str} {c : Contextinfo}

/-- The context matches the request and belongs to the balancer. -/
def Matches (useAlias : Bool) (s : Snapshot) (r : Request) (balancer : Option ProxyBalancer) (c : Contextinfo) :
    Prop :=
  c.context ≠ [] ∧ considered useAlias s r balancer c = true ∧ pathMatches (cutUri r.uri.str) c.context = true

instance : Decidable (Matches useAlias s r balancer c) :=
  inferInstanceAs (Decidable (_ ∧ _ ∧ _))

theorem matchLength_of_matches (h : Matches useAlias s r balancer c) :
    matchLength useAlias s r balancer c = c.context.length := by
  rw [matchLength, h.2.1, h.2.2]
  rfl

theorem matches_of_matchLength (h : matchLength useAlias s r balancer c ≠ 0) : Matches useAlias s r balancer c := by
  unfold matchLength at h
  split at h
  · rename_i hc
    rw [Bool.and_eq_true] at hc
    exact ⟨fun hnil => h (by rw [hnil]; rfl), hc.1, hc.2⟩
  · exact absurd rfl h

/-- What a call serves: the longest of the matching contexts, if they are open. -/
structure Serves (useAlias : Bool) (s : Snapshot) (conf : List ProxyBalancer) (r : Request)
    (balancer : Option ProxyBalancer) (route : Option Str) (c : Contextinfo) : Prop where
  fits : Matches useAlias s r balancer c
  longest : ∀ c' ∈ s.contexts, Matches useAlias s r balancer c' → c'.context.length ≤ c.context.length
  isOpen : statusOk conf s r route c = true

theorem serves_iff : Serves useAlias s conf r balancer route c ↔
    Matches useAlias s r balancer c ∧
      (∀ c' ∈ s.contexts, Matches useAlias s r balancer c' → c'.context.length ≤ c.context.length) ∧
      statusOk conf s r route c = true :=
  ⟨fun h => ⟨h.fits, h.longest, h.isOpen⟩, fun h => ⟨h.1, h.2.1, h.2.2⟩⟩

instance : Decidable (Serves useAlias s conf r balancer route c) := decidable_of_iff' _ serves_iff

theorem longest_iff (hc : c ∈ s.contexts) :
    matchLength useAlias s r balancer c = maxLength (s.contexts.map (matchLength useAlias s r balancer)) ∧
        matchLength useAlias s r balancer c ≠ 0 ↔
      Matches useAlias s r balancer c ∧
        ∀ c' ∈ s.contexts, Matches useAlias s r balancer c' → c'.context.length ≤ c.context.length := by
  constructor
  · rintro ⟨hmax, hne⟩
    have hm := matches_of_matchLength hne
    refine ⟨hm, fun c' hc' hm' => ?_⟩
    rw [← matchLength_of_matches hm, ← matchLength_of_matches hm', hmax]
    exact le_maxLength (List.mem_map_of_mem hc')
  · rintro ⟨hm, hlong⟩
    have hlen := matchLength_of_matches hm
    have hne : c.context.length ≠ 0 := fun h => hm.1 (List.eq_nil_of_length_eq_zero h)
    have hle : matchLength useAlias s r balancer c ≤
        maxLength (s.contexts.map (matchLength useAlias s r balancer)) := le_maxLength (List.mem_map_of_mem hc)
    refine ⟨Nat.le_antisymm hle ?_, by rw [hlen]; exact hne⟩
    -- The maximum is the length of some context that matches.
    obtain ⟨c', hc', heq⟩ := List.mem_map.mp (maxLength_mem (l := s.contexts.map (matchLength useAlias s r balancer))
      (by omega))
    have hm' : Matches useAlias s r balancer c' := matches_of_matchLength (by omega)
    rw [← heq, matchLength_of_matches hm', hlen]
    exact hlong c' hc' hm'

/-- The served contexts in the order of the table. -/
def served (useAlias : Bool) (s : Snapshot) (conf : List ProxyBalancer) (r : Request)
    (balancer : Option ProxyBalancer) (route : Option Str) : List Contextinfo :=
  s.contexts.filter fun c => decide (Serves useAlias s conf r balancer route c)

theorem mem_served : c ∈ served useAlias s conf r balancer route ↔
    c ∈ s.contexts ∧ Serves useAlias s conf r balancer route c := by
  rw [served, List.mem_filter, decide_eq_true_iff]

def entryOf (c : Contextinfo) : NodeContext := { node := c.node, context := c.id }

theorem searchNodes_eq : searchNodes useAlias s conf r balancer route =
    if served useAlias s conf r balancer route = [] then none
    else some ((served useAlias s conf r balancer route).map entryOf) := by
  unfold searchNodes
  simp only
  by_cases hmax : maxLength (s.contexts.map (matchLength useAlias s r balancer)) = 0
  · -- No context matches, so none is served.
    have hnone : served useAlias s conf r balancer route = [] := by
      rw [List.eq_nil_iff_forall_not_mem]
      intro c hc
      obtain ⟨hmem, hserves⟩ := mem_served.mp hc
      have h := (longest_iff hmem).mpr ⟨hserves.fits, hserves.longest⟩
      omega
    rw [if_pos hmax, if_pos hnone]
  · rw [if_neg hmax]
    have hbest : (s.contexts.filter fun c => matchLength useAlias s r balancer c ==
        maxLength (s.contexts.map (matchLength useAlias s r balancer)) && statusOk conf s r route c) =
        served useAlias s conf r balancer route := by
      unfold served
      apply List.filter_congr
      intro c hc
      rw [Bool.eq_iff_iff, Bool.and_eq_true, beq_iff_eq, decide_eq_true_iff]
      constructor
      · rintro ⟨hlen, hopen⟩
        have h := (longest_iff hc).mp ⟨hlen, by omega⟩
        exact ⟨h.1, h.2, hopen⟩
      · intro h
        exact ⟨((longest_iff hc).mpr ⟨h.fits, h.longest⟩).1, h.isOpen⟩
    rw [hbest]
    rfl

theorem searchNodes_eq_none :
    searchNodes useAlias s conf r balancer route = none ↔
      ∀ c ∈ s.contexts, ¬ Serves useAlias s conf r balancer route c := by
  rw [searchNodes_eq]
  constructor
  · intro h c hc hserves
    split at h
    · rename_i hnil
      have := mem_served.mpr ⟨hc, hserves⟩
      rw [hnil] at this
      cases this
    · cases h
  · intro h
    rw [if_pos]
    rw [List.eq_nil_iff_forall_not_mem]
    intro c hc
    exact h c (mem_served.mp hc).1 (mem_served.mp hc).2

theorem searchNodes_getD :
    (searchNodes useAlias s conf r balancer route).getD [] =
      (served useAlias s conf r balancer route).map entryOf := by
  rw [searchNodes_eq]
  split
  · rename_i hnil
    rw [hnil]
    rfl
  · rfl

theorem searchNodes_eq_some {best : List NodeContext} (h : searchNodes useAlias s conf r balancer route = some best) :
    best = (served useAlias s conf r balancer route).map entryOf := by
  rw [← searchNodes_getD, h]
  rfl

theorem entryOf_injective {c c' : Contextinfo} (hc : c ∈ s.contexts) (hc' : c' ∈ s.contexts)
    (h : entryOf c = entryOf c') : c = c' :=
  List.inj_on_of_nodup_map s.nodup hc hc' (congrArg NodeContext.context h)

theorem searchNodes_eq_iff {conf' : List ProxyBalancer} {r' : Request} {balancer' : Option ProxyBalancer}
    {route' : Option Str} :
    searchNodes useAlias s conf r balancer route = searchNodes useAlias s conf' r' balancer' route' ↔
      ∀ c ∈ s.contexts, Serves useAlias s conf r balancer route c ↔ Serves useAlias s conf' r' balancer' route' c := by
  constructor
  · intro h c hc
    have hentries : (served useAlias s conf r balancer route).map entryOf =
        (served useAlias s conf' r' balancer' route').map entryOf := by
      rw [← searchNodes_getD, h, searchNodes_getD]
    have hmem : ∀ {l l' : List Contextinfo}, (∀ x ∈ l', x ∈ s.contexts) → l.map entryOf = l'.map entryOf →
        c ∈ l → c ∈ l' := by
      intro l l' hl' heq hcl
      have hin : entryOf c ∈ l'.map entryOf := heq ▸ List.mem_map_of_mem hcl
      obtain ⟨x, hx, hxc⟩ := List.mem_map.mp hin
      rw [entryOf_injective hc (hl' x hx) hxc.symm]
      exact hx
    constructor
    · intro hserves
      exact (mem_served.mp (hmem (fun x hx => (mem_served.mp hx).1) hentries (mem_served.mpr ⟨hc, hserves⟩))).2
    · intro hserves
      exact (mem_served.mp (hmem (fun x hx => (mem_served.mp hx).1) hentries.symm
        (mem_served.mpr ⟨hc, hserves⟩))).2
  · intro h
    have hserved : served useAlias s conf r balancer route = served useAlias s conf' r' balancer' route' := by
      unfold served
      apply List.filter_congr
      intro c hc
      rw [decide_eq_decide]
      exact h c hc
    rw [searchNodes_eq, searchNodes_eq, hserved]

end ModCluster
