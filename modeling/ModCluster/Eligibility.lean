import ModCluster.RouteSearch

/-!
# Workers that may be used

An election makes more checks on a worker than the search for a route does: it asks
for a load factor that is not negative, and for an area that is that of the node's
slot. A session route can lead to a worker that no election would choose.
-/

open CString Slotmem Slotmem.Table

namespace ModCluster

/-! ## Statement -/

/-- The checks of `internal_process_worker` in the standby pass that do not depend on
the request. -/
structure Eligible (w : World) (b k : Nat) : Prop where
  helper : ∃ worker helper, w.server.worker? b k = some worker ∧ worker.context = some helper ∧
    helper.index = (w.area b k).index
  index : (w.area b k).index ≠ -1
  lbfactor : 0 ≤ (w.area b k).lbfactor
  usable : (w.area b k).isUsable = true
  node : ∃ worker i, w.server.worker? b k = some worker ∧
    readNodeWorker w.tables (w.area b k).index (w.area b k) = some i ∧ worker.s = .slot i

/-- What the search of a route does not look at. -/
structure Fit (w : World) (b k : Nat) : Prop where
  lbfactor : 0 ≤ (w.area b k).lbfactor
  node : ∃ worker i, w.server.worker? b k = some worker ∧
    readNodeWorker w.tables (w.area b k).index (w.area b k) = some i ∧ worker.s = .slot i

/-! ## The checks are those of an election -/

/-- A worker is eligible when the standby pass accepts it for some request. -/
theorem eligible_iff {w : World} {b k : Nat} :
    Eligible w b k ↔ ∃ (domain : Option Str) (best : List NodeContext) (e : Election),
      (internalProcessWorker b true true domain best w e k).2 = true := by
  constructor
  · rintro ⟨⟨worker, helper, hworker, hcontext, hhelper⟩, hindex, hlb, husable, worker', i, hworker', hread, hs⟩
    rw [hworker, Option.some.injEq] at hworker'
    subst hworker'
    have harea : worker.area w.tables = w.area b k := by rw [World.area, hworker]
    refine ⟨none, [⟨(w.area b k).index, 0⟩], ⟨none, none, []⟩, ?_⟩
    unfold internalProcessWorker
    rw [hworker]
    simp only [hcontext, harea]
    rw [if_neg (not_or.mpr ⟨hindex, not_not_intro hhelper⟩),
      if_neg (not_or.mpr ⟨by omega, fun h => h.2 trivial⟩), if_neg (not_not_intro husable)]
    simp only [findEntry, if_neg hindex, if_true, hread, if_neg (not_not_intro hs)]
    rw [if_neg fun h => h.1 trivial]
    split
    · rfl
    · rfl
  · rintro ⟨domain, best, e, h⟩
    unfold internalProcessWorker at h
    split at h
    · cases h
    rename_i worker hworker
    have harea : worker.area w.tables = w.area b k := by rw [World.area, hworker]
    rw [harea] at h
    split at h
    · cases h
    rename_i helper hcontext
    simp only at h
    split at h
    · cases h
    rename_i hindex
    rw [not_or, not_not] at hindex
    split at h
    · cases h
    rename_i hlb
    split at h
    · cases h
    rename_i husable
    split at h
    · cases h
    split at h
    · cases h
    rename_i i hread
    split at h
    · cases h
    rename_i hs
    exact ⟨⟨worker, helper, hworker, hcontext, hindex.2⟩, hindex.1, by omega, by simpa using husable,
      worker, i, hworker, hread, by simpa using hs⟩

/-! ## The result -/

theorem Tried.eligible_iff {httpd : Httpd} {w w' w₁ : World} {b k : Nat} {standby : Bool} {route : Str}
    (ht : Tried httpd w w') (ht₁ : Tried httpd w w₁) (ha : Asked w₁ b standby route k)
    (hu : (w'.area b k).isUsable = true) : Eligible w' b k ↔ Fit w b k := by
  have hindex : (w'.area b k).index = (w.area b k).index := ht.keeps b k (·.index) fun _ => rfl
  have hlb : (w'.area b k).lbfactor = (w.area b k).lbfactor := ht.keeps b k (·.lbfactor) fun _ => rfl
  have hread := ht.readNodeWorker b k
  constructor
  · rintro ⟨-, -, hfactor, -, worker', i, hworker', hnode, hs⟩
    obtain ⟨worker, hworker, hs', -⟩ := ht.worker hworker'
    exact ⟨hlb ▸ hfactor, worker, i, hworker, hread ▸ hnode, hs'.trans hs⟩
  · rintro ⟨hfactor, worker, i, hworker, hnode, hs⟩
    obtain ⟨⟨worker₁, helper, hworker₁, hcontext, hhelper⟩, hne, -, -, -⟩ := ha
    rw [ht₁.keeps b k (·.index) fun _ => rfl] at hhelper hne
    obtain ⟨worker₀, hworker₀, -, hcontext₀⟩ := ht₁.worker hworker₁
    rw [hworker, Option.some.injEq] at hworker₀
    subst hworker₀
    obtain ⟨worker', hworker', hs', hcontext'⟩ := ht.worker_after hworker
    refine ⟨⟨worker', helper, hworker', hcontext'.trans (hcontext₀.trans hcontext), ?_⟩, ?_, ?_, hu, worker', i,
      hworker', ?_, hs'.trans hs⟩
    · rw [hindex]
      exact hhelper
    · rw [hindex]
      exact hne
    · rw [hlb]
      exact hfactor
    · rw [hread]
      exact hnode

/-- The search of a route returns no worker that an election would refuse exactly when the
worker that the walk comes to is fit. -/
theorem findRouteWorker_eligible_iff (httpd : Httpd) (cfg : Settings) (s : Snapshot) (b : Nat) (route : Str)
    (h : Handling) :
    (∀ fuel h' k, findRouteWorker httpd cfg s b fuel route h = (h', .worker k) → Eligible h'.world b k) ↔
      ∀ w' j k, RouteWalk httpd b (servesRequest cfg s b h) h.world route (h.world.visits b) w' (some (j, k)) →
        Fit h.world b k := by
  have hends : ∀ w' j k,
      RouteWalk httpd b (servesRequest cfg s b h) h.world route (h.world.visits b) w' (some (j, k)) →
        (Eligible w' b k ↔ Fit h.world b k) := by
    intro w' j k hwalk
    obtain ⟨w₁, standby, r, ht₁, ha⟩ := hwalk.ends_asked rfl
    exact hwalk.tried.eligible_iff ht₁ ha (hwalk.ends_usable rfl)
  constructor
  · intro hall w' j k hwalk
    obtain ⟨fuel, h', hfind, rfl⟩ := hwalk.found
    exact (hends _ j k hwalk).1 (hall fuel h' k hfind)
  · intro hall fuel h' k hfind
    obtain ⟨j, hwalk⟩ := (findRouteWorker_iff_walk h'.world).1 ⟨fuel, h', hfind, rfl⟩
    exact (hends _ j k hwalk).2 (hall h'.world j k hwalk)

section Example

/-- A node that has registered and has not sent a STATUS yet. -/
def unreportedRecord : Nodeinfo := { nodeRecord with stat := { nodeArea with lbfactor := -1 } }

def unreportedWorld : World :=
  ⟨{ emptyTables ⟨1, 1, 1, 1, 1⟩ with nodes := (Table.empty 1).store 0 unreportedRecord }, ⟨[nodeBalancer]⟩⟩

/-- A session route leads to it. -/
theorem session_to_unreported_node :
    ¬ ∀ (httpd : Httpd) (cfg : Settings) (s : Snapshot) (b fuel : Nat) (route : Str) (h h' : Handling) (k : Nat),
      findRouteWorker httpd cfg s b fuel route h = (h', .worker k) → Eligible h'.world b k := by
  intro h
  have hfound : (findRouteWorker plainHttpd aliased disabledContext 0 1 (ascii "r0")
      ⟨unreportedWorld, translated.request⟩).2 = .worker 0 := by decide +kernel
  have heligible := h plainHttpd aliased disabledContext 0 1 (ascii "r0") ⟨unreportedWorld, translated.request⟩ _ 0
    (Prod.ext rfl hfound)
  have hlb := heligible.lbfactor
  revert hlb
  decide +kernel

end Example

end ModCluster
