import ModCluster.WatchdogEdits

/-!
# Runs

The tables that messages and watchdogs can lead to. In a strict run no message uses
the reserved JVMRoute.
-/

open CString Slotmem Slotmem.Table

namespace ModCluster

/-- The sizes the tables are created with. -/
structure Sizes where
  nodes : Nat
  hosts : Nat
  contexts : Nat
  balancers : Nat
  domains : Nat

def emptyTables (sz : Sizes) : Tables where
  nodes := Table.empty sz.nodes
  hosts := Table.empty sz.hosts
  contexts := Table.empty sz.contexts
  balancers := Table.empty sz.balancers
  domains := Table.empty sz.domains
  version := 0

/-- What the proxy modules themselves may write into the record of a node: anything
but what identifies it. They may mark a node for removal. -/
structure Bookkeeping (a n : Nodeinfo) : Prop where
  id : n.mess.id = a.mess.id
  balancer : n.mess.balancer = a.mess.balancer
  jvmRoute : n.mess.jvmRoute = a.mess.jvmRoute
  domain : n.mess.domain = a.mess.domain
  host : n.mess.host = a.mess.host
  port : n.mess.port = a.mess.port
  type : n.mess.type = a.mess.type
  remove : a.mess.remove = true → n.mess.remove = true

instance (a n : Nodeinfo) : Decidable (Bookkeeping a n) :=
  decidable_of_iff (n.mess.id = a.mess.id ∧ n.mess.balancer = a.mess.balancer ∧
      n.mess.jvmRoute = a.mess.jvmRoute ∧ n.mess.domain = a.mess.domain ∧ n.mess.host = a.mess.host ∧
      n.mess.port = a.mess.port ∧ n.mess.type = a.mess.type ∧ (a.mess.remove = true → n.mess.remove = true))
    ⟨fun ⟨h₁, h₂, h₃, h₄, h₅, h₆, h₇, h₈⟩ => ⟨h₁, h₂, h₃, h₄, h₅, h₆, h₇, h₈⟩,
      fun ⟨h₁, h₂, h₃, h₄, h₅, h₆, h₇, h₈⟩ => ⟨h₁, h₂, h₃, h₄, h₅, h₆, h₇, h₈⟩⟩

inductive Step (httpd : Httpd) (strict : Prop) : Tables → Tables → Prop
  | config {ts : Tables} (mconf : Mconf) (now : Int) (px : Option Proxy) (argv : Argv)
      (hroute : strict → ∀ args, parseConfig httpd mconf argv = .ok args →
        args.node.mess.jvmRoute ≠ REMOVED) :
      Step httpd strict ts (processConfig httpd mconf now ts px argv).tables
  | app {ts : Tables} (now : Int) (filename : Str) (argv : Argv) (cmd : ContextStatus)
      (hroute : strict → ∀ args, parseApp httpd (filename == NODE_COMMAND) argv = .ok args →
        args.jvmRoute ≠ REMOVED) :
      Step httpd strict ts (processAppCmd httpd now ts filename argv cmd).tables
  | watchdog {ts : Tables} (wait now : Int) : Step httpd strict ts (removeRemovedNode httpd wait now ts)
  | lbWatchdog {ts : Tables} (wait now : Int) (nodeTable : List Int) :
      Step httpd strict ts (lbRemoveRemovedNode wait now nodeTable ts)
  | bookkeeping {ts : Tables} (i : Nat) (a n : Nodeinfo) (hused : ts.nodes.used i = some a)
      (hkeep : Bookkeeping a n) :
      Step httpd strict ts { ts with nodes := ts.nodes.poke i n }

def Reachable (httpd : Httpd) (strict : Prop) (ts : Tables) : Prop :=
  ∃ sz, Relation.ReflTransGen (Step httpd strict) (emptyTables sz) ts

theorem idsOk_empty (sz : Sizes) : IdsOk (emptyTables sz) where
  nodes i a h := by simp [emptyTables, used_empty] at h
  stale i _ hr := by
    have hp : (emptyTables sz).nodes.peek i = default := peek_empty sz.nodes i
    rw [hp] at hr
    cases hr
  hosts i a h := by simp [emptyTables, used_empty] at h
  contexts i a h := by simp [emptyTables, used_empty] at h
  balancers i a h := by simp [emptyTables, used_empty] at h

theorem linked_empty (sz : Sizes) : Linked (emptyTables sz) where
  contexts i a h := by simp [emptyTables, used_empty] at h
  hosts i a h := by simp [emptyTables, used_empty] at h
  nodes i a h := by simp [emptyTables, used_empty] at h
  removed i a h := by simp [emptyTables, used_empty] at h

variable {httpd : Httpd} {strict : Prop} {ts ts' : Tables}

theorem Step.edits (h : Step httpd strict ts ts') (hok : IdsOk ts) (hlink : strict → Linked ts) :
    Edits strict ts ts' := by
  cases h with
  | config mconf now px argv hroute => exact processConfig_edits httpd mconf now px argv hok hroute
  | app now filename argv cmd hroute => exact processAppCmd_edits httpd now filename argv cmd hok hroute
  | watchdog wait now => exact removeRemovedNode_edits httpd wait now hok hlink
  | lbWatchdog wait now nodeTable => exact lbRemoveRemovedNode_edits wait now nodeTable hok hlink
  | bookkeeping i a n hused hkeep =>
    refine (Edit.node i n ?_ (fun _ => Or.inr ⟨a, hused⟩) (Or.inl ?_) ?_ fun _ hr => Or.inl ?_).single
    · rw [peek_of_used hused, hkeep.id]
    · rw [peek_of_used hused, hkeep.balancer]
    · rw [peek_of_used hused, hkeep.jvmRoute]
      exact id
    · rw [peek_of_used hused, ← hkeep.jvmRoute]
      exact hr

/-- What the edits of a run keep holds of all reachable tables. -/
theorem Reachable.invariants (h : Reachable httpd strict ts) :
    IdsOk ts ∧ Named ts ∧ (strict → Linked ts) := by
  obtain ⟨sz, h⟩ := h
  induction h with
  | refl => exact ⟨idsOk_empty sz, fun i n hn => by simp [emptyTables, used_empty] at hn, fun _ => linked_empty sz⟩
  | tail _ hstep ih =>
    obtain ⟨hok, hnamed, hlink⟩ := ih
    have he := hstep.edits hok hlink
    exact ⟨he.idsOk hok, he.named hnamed, fun hs => he.linked hs (hlink hs)⟩

theorem Reachable.idsOk (h : Reachable httpd strict ts) : IdsOk ts := h.invariants.1

theorem Reachable.empty (sz : Sizes) : Reachable httpd strict (emptyTables sz) :=
  ⟨sz, Relation.ReflTransGen.refl⟩

theorem Reachable.step (h : Reachable httpd strict ts) (hstep : Step httpd strict ts ts') :
    Reachable httpd strict ts' := by
  obtain ⟨sz, h⟩ := h
  exact ⟨sz, h.tail hstep⟩

theorem Step.loose (h : Step httpd strict ts ts') : Step httpd False ts ts' := by
  cases h with
  | config mconf now px argv => exact Step.config mconf now px argv False.elim
  | app now filename argv cmd => exact Step.app now filename argv cmd False.elim
  | watchdog wait now => exact Step.watchdog wait now
  | lbWatchdog wait now nodeTable => exact Step.lbWatchdog wait now nodeTable
  | bookkeeping i a n hused hkeep => exact Step.bookkeeping i a n hused hkeep

theorem Reachable.loose (h : Reachable httpd strict ts) : Reachable httpd False ts := by
  obtain ⟨sz, h⟩ := h
  exact ⟨sz, Relation.ReflTransGen.mono (fun _ _ hstep => Step.loose hstep) _ _ h⟩

/-! ## Referential integrity -/

/-- In a strict run every context has its host, every host its node and every node
its balancer. -/
theorem reachable_references (httpd : Httpd) (ts : Tables) (h : Reachable httpd True ts) :
    (∀ i c, ts.contexts.used i = some c →
      ∃ j x, ts.hosts.used j = some x ∧ x.node = c.node ∧ x.vhost = c.vhost) ∧
    (∀ i x, ts.hosts.used i = some x → ∃ j n, ts.nodes.used j = some n ∧ x.node = j) ∧
    (∀ i n, ts.nodes.used i = some n →
      ∃ j b, ts.balancers.used j = some b ∧ b.balancer = n.mess.balancer) := by
  obtain ⟨-, -, hlink⟩ := h.invariants
  exact ⟨(hlink trivial).contexts, (hlink trivial).hosts, (hlink trivial).nodes⟩

/-- A node with an alias and a context, as its first CONFIG leaves it. -/
def oneNode : Tables :=
  (processConfig plainHttpd Mconf.default 0 (emptyTables ⟨2, 2, 2, 2, 2⟩) none
    (Argv.ofTokens [ascii "JVMRoute", ascii "n1", ascii "Alias", ascii "host1", ascii "Context",
      ascii "/app"])).tables

theorem oneNode_reachable : Reachable plainHttpd True oneNode := by
  refine (Reachable.empty ⟨2, 2, 2, 2, 2⟩).step (Step.config _ _ _ _ ?_)
  intro _ args hargs hroute
  have hd : (parseConfig plainHttpd Mconf.default (Argv.ofTokens [ascii "JVMRoute", ascii "n1",
      ascii "Alias", ascii "host1", ascii "Context", ascii "/app"])).map
        (fun args => args.node.mess.jvmRoute) = .ok (ascii "n1") := by decide +kernel
  rw [hargs] at hd
  simp only [Except.map, Except.ok.injEq] at hd
  rw [hd] at hroute
  revert hroute
  decide +kernel

theorem oneNode_references :
    oneNode.contexts.used 0 = some ⟨0, ascii "/app", 1, 0, .stopped, 0, 0⟩ ∧
    ∃ j x, oneNode.hosts.used j = some x ∧ x.node = 0 ∧ x.vhost = 1 := by
  have hc : oneNode.contexts.used 0 = some ⟨0, ascii "/app", 1, 0, .stopped, 0, 0⟩ := by decide +kernel
  exact ⟨hc, (reachable_references plainHttpd oneNode oneNode_reachable).1 0 _ hc⟩

end ModCluster
