import ModCluster.GuardedRuns

/-!
# Addresses of nodes

With `mod_lbmethod_cluster` no process has workers of its own, so a new node goes where
its Host and Port already are. No two nodes have one address.
-/

open CString Slotmem Slotmem.Table

namespace ModCluster

variable {httpd : Httpd} {ts : Tables} {px : Option Proxy} {args : ConfigArgs} {now : Int}
  {m m' : Table Nodeinfo} {id : Int} {clean : Bool} {k : Nat} {n : Nodeinfo}

def Nodeinfo.address (n : Nodeinfo) : Str × Str := (n.mess.host, n.mess.port)

theorem hasHostPort_iff (hargs : ArgsOk args) :
    hasHostPort args.node.mess.host args.node.mess.port n = true ↔ n.address = args.node.address := by
  unfold hasHostPort Nodeinfo.address
  rw [truncate, truncate, List.take_of_length_le hargs.host, List.take_of_length_le hargs.port, Bool.and_eq_true,
    beq_iff_eq, beq_iff_eq, Prod.mk.injEq, eq_comm, eq_comm (a := args.node.mess.port)]

theorem distinct_descend (h : m.Distinct Nodeinfo.address) (hd : NodesDescend m m') :
    m'.Distinct Nodeinfo.address := by
  intro i j a b ha hb hab
  obtain ⟨a₀, ha₀, hdesc⟩ := hd i a ha
  obtain ⟨b₀, hb₀, hdesc'⟩ := hd j b hb
  refine h i j a₀ b₀ ha₀ hb₀ ?_
  unfold Nodeinfo.address at hab ⊢
  rw [← hdesc.host, ← hdesc.port, ← hdesc'.host, ← hdesc'.port]
  exact hab

theorem Admitted.address (hok : IdsOk ts) (hargs : ArgsOk args) (hadm : Admitted ts args)
    (hk : ts.nodes.first (hasRoute args.node.mess.jvmRoute) = some k) (hn : ts.nodes.used k = some n) :
    n.address = args.node.address := by
  obtain ⟨hother, -⟩ := hadm
  rw [knownNode_eq hok.nodes hargs.id, hk, isOtherNode, peek_of_used hn] at hother
  obtain ⟨l, hmess⟩ := messageNode_mess hok.nodes hargs.id
  simp only [isSameNode, hmess, Bool.not_eq_false', Bool.and_eq_true, beq_iff_eq] at hother
  unfold Nodeinfo.address
  rw [hother.1.1.1.1.1.2, hother.1.1.1.1.2]

theorem distinct_store_same {a : Nodeinfo} (h : m.Distinct Nodeinfo.address) (ha : m.used k = some a)
    (haddress : n.address = a.address) : (m.store k n).Distinct Nodeinfo.address := by
  have hold {l : Nat} {b : Nodeinfo} (hb : (m.store k n).used l = some b) :
      ∃ c, m.used l = some c ∧ c.address = b.address := by
    rcases used_of_store hb with ⟨rfl, rfl⟩ | ⟨-, hb'⟩
    · exact ⟨a, ha, haddress.symm⟩
    · exact ⟨b, hb', rfl⟩
  intro i j b c hb hc hbc
  obtain ⟨b₀, hb₀, hr⟩ := hold hb
  obtain ⟨c₀, hc₀, hr'⟩ := hold hc
  exact h i j b₀ c₀ hb₀ hc₀ (by rw [hr, hr', hbc])

theorem revive_distinct (h : ts.nodes.Distinct Nodeinfo.address) {a : Nodeinfo} (ha : ts.nodes.used k = some a)
    (route : Str) : (revive ts.nodes k route).Distinct Nodeinfo.address := by
  unfold revive
  refine h.poke ha ?_
  rw [peek_of_used ha]
  rfl

theorem NodeStored.distinct (hok : IdsOk ts) (hargs : ArgsOk args) (hadm : Admitted ts args)
    (hid : (workerFound httpd ts none args).2 = -1) (hprep : Prepared httpd ts none args m id clean)
    (h : NodeStored now args m id clean k m') (hu : ts.nodes.Distinct Nodeinfo.address) :
    m'.Distinct Nodeinfo.address := by
  have hmsg (s : WorkerShared) : (storedNode now args k s).address = args.node.address := rfl
  cases hprep with
  | hostPort l a hid' hfirst hused hname =>
    obtain ⟨b, hb, hport, -⟩ := first_eq_some hfirst
    rw [hused, Option.some.injEq] at hb
    subst hb
    rw [hasHostPort_iff hargs] at hport
    cases h with
    | updated b s hk hb hstat => exact hu.poke hb ((hmsg s).trans (hadm.address hok hargs hk hb).symm)
    | inserted s hnew hlt hslot =>
      have hlk : l = k := by omega
      subst hlk
      exact distinct_store_same hu hused ((hmsg s).trans hport.symm)
  | revived l a hid' hfirst hused hname =>
    have hrevived := revive_distinct hu hused args.node.mess.jvmRoute
    obtain ⟨b, hb, hport, -⟩ := first_eq_some hfirst
    rw [hused, Option.some.injEq] at hb
    subst hb
    rw [hasHostPort_iff hargs] at hport
    have hl : ∃ b, (revive ts.nodes l args.node.mess.jvmRoute).used l = some b ∧ b.address = a.address ∧
        hasRoute args.node.mess.jvmRoute b = true := by
      refine ⟨_, used_poke_self _ hused, ?_, hasRoute_iff.mpr rfl⟩
      rw [peek_of_used hused]
      rfl
    obtain ⟨c, hc, hcaddress, hcroute⟩ := hl
    cases h with
    | updated b s hk hb hstat =>
      refine hrevived.poke hb ((hmsg s).trans ?_)
      by_cases hkl : l = k
      · subst hkl
        rw [hc, Option.some.injEq] at hb
        rw [← hb, hcaddress, hport]
      · -- The first slot with the name had it before.
        have hb' : ts.nodes.used k = some b := (used_poke_ne _ hkl).symm.trans hb
        obtain ⟨b₁, hb₁, hroute, hmin⟩ := first_eq_some hk
        rw [hb, Option.some.injEq] at hb₁
        subst hb₁
        refine (hadm.address hok hargs (first_eq_some_of hb' hroute fun j d hj hd => ?_) hb').symm
        by_cases hjl : l = j
        · subst hjl
          rw [hmin l c hj hc] at hcroute
          cases hcroute
        · exact hmin j d hj ((used_poke_ne _ hjl).trans hd)
    | inserted s hnew hlt hslot =>
      rw [first_eq_none.mp hnew l c hc] at hcroute
      cases hcroute
  | unknown id hid' hnone hfree hlocal =>
    cases h with
    | updated b s hk hb hstat => exact hu.poke hb ((hmsg s).trans (hadm.address hok hargs hk hb).symm)
    | inserted s hnew hlt hslot =>
      refine hu.store fun j a ha haddress => ?_
      have hmiss := first_eq_none.mp hnone j a ha
      rw [(hasHostPort_iff hargs).mpr (haddress.trans (hmsg s))] at hmiss
      cases hmiss
  | same l hid' hknown => omega
  | moved l j hid' hne hk hknown => omega
  | adopted l hid' hlt hnew hname hfree => omega
  | renamed l hid' hlt hnew hname => omega
  | outside l hid' hne hnew hout => omega

theorem ConfigNodes.distinct (hok : IdsOk ts) (hargs : ArgsOk args) (h : ConfigNodes httpd ts none args now m')
    (hu : ts.nodes.Distinct Nodeinfo.address) : m'.Distinct Nodeinfo.address := by
  have hid : (workerFound httpd ts none args).2 = -1 := rfl
  cases h with
  | refused => exact hu
  | prepared _ id clean hadm hprep =>
    cases hprep with
    | revived l a hid' hfirst hused hname => exact revive_distinct hu hused _
    | renamed l hid' hlt hnew hname => omega
    | _ => exact hu
  | stored m _ id clean k hadm hprep hstored => exact hstored.distinct hok hargs hadm hid hprep hu

/-- In a deployment without workers no two nodes have one Host and Port. -/
theorem reachable_addressesUnique (httpd : Httpd) (ts : Tables)
    (h : GuardedReachable httpd (fun _ px _ => px = none) ts) :
    ∀ i j a b, ts.nodes.used i = some a → ts.nodes.used j = some b → a.mess.host = b.mess.host →
      a.mess.port = b.mess.port → i = j := by
  have hdistinct : ts.nodes.Distinct Nodeinfo.address := by
    refine h.induct ?_ (fun m m' hd hu => distinct_descend hu hd) ?_
    · intro size i j a b ha
      rw [used_empty] at ha
      cases ha
    · rintro ts px args now m' hok hargs rfl hnodes hu
      exact hnodes.distinct hok hargs hu
  intro i j a b ha hb hhost hport
  exact hdistinct i j a b ha hb (Prod.ext hhost hport)

/-- Two nodes on two ports. -/
def twoPorts : Tables :=
  (processConfig plainHttpd Mconf.default 0 oneNode none
    (Argv.ofTokens [ascii "JVMRoute", ascii "n2", ascii "Port", ascii "8010"])).tables

theorem twoPorts_facts :
    (twoPorts.nodes.used 0).map (·.mess.port) = some (ascii "8009") ∧
      (twoPorts.nodes.used 1).map (·.mess.port) = some (ascii "8010") := by
  decide +kernel

theorem twoPorts_addressesUnique :
    (twoPorts.nodes.used 0).map (·.mess.port) = some (ascii "8009") ∧
      (twoPorts.nodes.used 1).map (·.mess.port) = some (ascii "8010") ∧
      ∀ i j a b, twoPorts.nodes.used i = some a → twoPorts.nodes.used j = some b → a.mess.host = b.mess.host →
        a.mess.port = b.mess.port → i = j := by
  refine ⟨twoPorts_facts.1, twoPorts_facts.2, reachable_addressesUnique plainHttpd twoPorts ?_⟩
  have hfirst : GuardedStep plainHttpd (fun _ px _ => px = none) (emptyTables ⟨2, 2, 2, 2, 2⟩) oneNode :=
    GuardedStep.config _ _ _ _ fun _ _ => rfl
  have hsecond : GuardedStep plainHttpd (fun _ px _ => px = none) oneNode twoPorts :=
    GuardedStep.config _ _ _ _ fun _ _ => rfl
  exact ⟨_, (Relation.ReflTransGen.single hfirst).tail hsecond⟩

end ModCluster
