import ModCluster.AppListing
import ModCluster.Wildcards

/-!
# ENABLE-, DISABLE- and STOP-APP

`process_app_cmd` looks up or makes the host of each alias and stores each context on it.
An insert may fail, and the rest of the command goes on.
-/

open CString Slotmem Slotmem.Table

namespace ModCluster

/-! ## Contexts -/

/-- The node has this context on the vhost. -/
def carries (m : Table Contextinfo) (node vhost : Int) (context : Str) : Bool :=
  m.records.any fun c => c.node == node && c.vhost == vhost && c.context == context

/-- The contexts of the node for which `named` holds, of their name and vhost, got the
status. The others are as before, and what is new is named. -/
structure Given (now : Int) (cmd : ContextStatus) (node : Int) (named : Str → Int → Prop)
    (m m' : Table Contextinfo) : Prop where
  size : m'.size = m.size
  changed : ∀ j c, m.used j = some c → c.node = node → named c.context c.vhost → m'.used j = some (commanded now cmd c)
  others : ∀ j c, m.used j = some c → ¬ (c.node = node ∧ named c.context c.vhost) → m'.used j = some c
  added : ∀ j c, m.used j = none → m'.used j = some c → c.node = node ∧ named c.context c.vhost ∧ c.status = cmd

section Contexts

variable {m m' m'' : Table Contextinfo} {now : Int} {cmd : ContextStatus} {node vhost : Int} {context : Str}
  {named named' : Str → Int → Prop}

theorem carries_iff : carries m node vhost context = true ↔
    ∃ j c, m.used j = some c ∧ c.node = node ∧ c.vhost = vhost ∧ c.context = context := by
  unfold carries
  simp only [List.any_eq_true, mem_records, Bool.and_eq_true, beq_iff_eq]
  constructor
  · rintro ⟨c, ⟨j, hc⟩, ⟨hn, hv⟩, hx⟩
    exact ⟨j, c, hc, hn, hv, hx⟩
  · rintro ⟨j, c, hc, hn, hv, hx⟩
    exact ⟨c, ⟨j, hc⟩, ⟨hn, hv⟩, hx⟩

theorem Given.refl : Given now cmd node (fun _ _ => False) m m where
  size := rfl
  changed _ _ _ _ h := h.elim
  others _ _ hc _ := hc
  added j c hnone hc := by
    rw [hnone] at hc
    cases hc

theorem Given.stays (h : Given now cmd node named m m') {j : Nat} {c : Contextinfo} (hc : m.used j = some c) :
    m'.used j = some c ∨ m'.used j = some (commanded now cmd c) := by
  by_cases hnamed : c.node = node ∧ named c.context c.vhost
  · exact Or.inr (h.changed j c hc hnamed.1 hnamed.2)
  · exact Or.inl (h.others j c hc hnamed)

theorem Given.trans (h : Given now cmd node named m m') (h' : Given now cmd node named' m' m'') :
    Given now cmd node (fun context vhost => named context vhost ∨ named' context vhost) m m'' where
  size := h'.size.trans h.size
  changed j c hc hn hnamed := by
    by_cases hfirst : named c.context c.vhost
    · have hc' := h.changed j c hc hn hfirst
      by_cases hthen : named' c.context c.vhost
      · have htwice := h'.changed j _ hc' hn hthen
        exact htwice
      · exact h'.others j _ hc' fun hboth => hthen hboth.2
    · have hc' := h.others j c hc fun hboth => hfirst hboth.2
      exact h'.changed j c hc' hn (hnamed.resolve_left hfirst)
  others j c hc hnot :=
    h'.others j c (h.others j c hc fun hboth => hnot ⟨hboth.1, Or.inl hboth.2⟩)
      fun hboth => hnot ⟨hboth.1, Or.inr hboth.2⟩
  added j c hnone hc := by
    cases hmid : m'.used j with
    | none =>
      obtain ⟨hn, hnamed, hstatus⟩ := h'.added j c hmid hc
      exact ⟨hn, Or.inr hnamed, hstatus⟩
    | some c' =>
      obtain ⟨hn, hnamed, hstatus⟩ := h.added j c' hnone hmid
      rcases h'.stays hmid with hc' | hc'
      · cases hc.symm.trans hc'
        exact ⟨hn, Or.inl hnamed, hstatus⟩
      · cases hc.symm.trans hc'
        exact ⟨hn, Or.inl hnamed, rfl⟩

theorem Given.congr (h : Given now cmd node named m m')
    (hiff : ∀ context vhost, named context vhost ↔ named' context vhost) : Given now cmd node named' m m' := by
  have heq : named = named' := funext fun context => funext fun vhost => propext (hiff context vhost)
  rw [← heq]
  exact h

theorem Given.carries (h : Given now cmd node named m m') (hc : carries m node vhost context = true) :
    ModCluster.carries m' node vhost context = true := by
  obtain ⟨j, c, hc, hn, hv, hx⟩ := carries_iff.1 hc
  rw [carries_iff]
  rcases h.stays hc with hc' | hc'
  · exact ⟨j, c, hc', hn, hv, hx⟩
  · exact ⟨j, _, hc', hn, hv, hx⟩

theorem Given.full (h : Given now cmd node named m m') (hfull : m.grab = none) :
    m'.grab = none ∧ ModCluster.carries m' node vhost context = ModCluster.carries m node vhost context := by
  have hused (j : Nat) (c : Contextinfo) (hc : m'.used j = some c) : ∃ c', m.used j = some c' := by
    have hlt := used_lt hc
    rw [h.size] at hlt
    exact grab_eq_none hfull j hlt
  constructor
  · cases hgrab : m'.grab with
    | none => rfl
    | some r =>
      obtain ⟨i, m₁⟩ := r
      obtain ⟨hlt, hfree, -⟩ := grab_eq_some hgrab
      rw [h.size] at hlt
      obtain ⟨c, hc⟩ := grab_eq_none hfull i hlt
      rcases h.stays hc with hc' | hc'
      · rw [hfree] at hc'
        cases hc'
      · rw [hfree] at hc'
        cases hc'
  · rw [Bool.eq_iff_iff]
    refine ⟨fun hc => ?_, h.carries⟩
    obtain ⟨j, c, hc, hn, hv, hx⟩ := carries_iff.1 hc
    obtain ⟨c', hc'⟩ := hused j c hc
    rw [carries_iff]
    rcases h.stays hc' with heq | heq
    · cases hc.symm.trans heq
      exact ⟨j, c, hc', hn, hv, hx⟩
    · cases hc.symm.trans heq
      exact ⟨j, c', hc', hn, hv, hx⟩

/-- The record that is stored for a context. -/
def storedContext (cmd : ContextStatus) (node vhost : Int) (context : Str) : Contextinfo :=
  { contextRecord node vhost cmd with context := context }

theorem helper_eq (hcmd : cmd ≠ .remove) (hfits : context.length ≤ CONTEXTSZ) (m : Table Contextinfo) :
    insertUpdateContextHelper now m (contextRecord node vhost cmd) context cmd =
      insertUpdateContext now m (storedContext cmd node vhost context) := by
  unfold insertUpdateContextHelper
  simp only [if_neg hcmd]
  rw [truncate, List.take_of_length_le hfits]
  rfl

theorem sameContext_stored {c : Contextinfo} : sameContext (storedContext cmd node vhost context) c = true ↔
    c.node = node ∧ c.context = context ∧ c.vhost = vhost := by
  rw [sameContext_iff]
  exact ⟨fun ⟨hx, hv, hn⟩ => ⟨hn.symm, hx.symm, hv.symm⟩, fun ⟨hn, hx, hv⟩ => ⟨hx.symm, hv.symm, hn.symm⟩⟩

theorem insertUpdateContext_given (hkeyed : m.Distinct Contextinfo.key) :
    match insertUpdateContext now m (storedContext cmd node vhost context) with
    | some m' => Given now cmd node (fun x v => x = context ∧ v = vhost) m m' ∧ m'.Distinct Contextinfo.key ∧
        carries m' node vhost context = true
    | none => m.grab = none ∧ carries m node vhost context = false := by
  split
  · rename_i m' hput
    rcases insertUpdateContext_cases hput with ⟨i, a, hfirst, ha, rfl⟩ | ⟨i, hfirst, hlt, hfree, rfl⟩
    · obtain ⟨a', ha', hsame, -⟩ := first_eq_some hfirst
      cases ha.symm.trans ha'
      obtain ⟨hn, hx, hv⟩ := sameContext_stored.1 hsame
      refine ⟨⟨size_poke _ _ _, fun j c hc hcn hnamed => ?_, fun j c hc hnot => ?_, fun j c hnone hc => ?_⟩,
        hkeyed.poke ha rfl, ?_⟩
      · have hij : i = j := hkeyed i j a c ha hc (Contextinfo.key_eq.2 (sameContext_iff.2
          ⟨hx.trans hnamed.1.symm, hv.trans hnamed.2.symm, hn.trans hcn.symm⟩))
        subst hij
        cases ha.symm.trans hc
        exact used_poke_self _ ha
      · by_cases hij : i = j
        · subst hij
          cases ha.symm.trans hc
          exact absurd ⟨hn, hx, hv⟩ hnot
        · rw [used_poke_ne _ hij, hc]
      · rcases used_of_poke hc with ⟨rfl, -, a', ha'⟩ | ⟨-, hc⟩
        · rw [hnone] at ha'
          cases ha'
        · rw [hnone] at hc
          cases hc
      · rw [carries_iff]
        exact ⟨i, _, used_poke_self _ ha, hn, hv, hx⟩
    · have hnew (j : Nat) (c : Contextinfo) (hc : m.used j = some c) :
          ¬ (c.node = node ∧ c.context = context ∧ c.vhost = vhost) := by
        intro hsame
        have hmiss := first_eq_none.1 hfirst j c hc
        rw [sameContext_stored.2 hsame] at hmiss
        cases hmiss
      refine ⟨⟨size_store _ _ _, fun j c hc hcn hnamed => absurd ⟨hcn, hnamed⟩ (hnew j c hc), fun j c hc _ => ?_,
        fun j c hnone hc => ?_⟩, ?_, ?_⟩
      · have hij : i ≠ j := by
          rintro rfl
          rw [hfree] at hc
          cases hc
        rw [used_store_ne _ hij, hc]
      · rcases used_of_store hc with ⟨rfl, rfl⟩ | ⟨-, hc⟩
        · exact ⟨rfl, ⟨rfl, rfl⟩, rfl⟩
        · rw [hnone] at hc
          cases hc
      · refine hkeyed.store fun j c hc hkey => hnew j c hc ?_
        have hsame : (storedContext cmd node vhost context).key = c.key := hkey.symm
        exact sameContext_stored.1 (Contextinfo.key_eq.1 hsame)
      · rw [carries_iff]
        exact ⟨i, _, used_store_self _ hlt, rfl, rfl, rfl⟩
  · rename_i hput
    obtain ⟨hfirst, hgrab⟩ := insertUpdateContext_eq_none.1 hput
    refine ⟨hgrab, Bool.eq_false_iff.2 fun hcarries => ?_⟩
    obtain ⟨j, c, hc, hn, hv, hx⟩ := carries_iff.1 hcarries
    have hmiss := first_eq_none.1 hfirst j c hc
    rw [sameContext_stored.2 ⟨hn, hx, hv⟩] at hmiss
    cases hmiss

theorem appContexts_given (hcmd : cmd ≠ .remove) (contexts : List Str) (hfits : ∀ c ∈ contexts, c.length ≤ CONTEXTSZ)
    (hkeyed : m.Distinct Contextinfo.key) :
    Given now cmd node (fun x v => x ∈ contexts ∧ v = vhost) m (appContexts now cmd node vhost contexts m).1 ∧
      (appContexts now cmd node vhost contexts m).1.Distinct Contextinfo.key ∧
      (appContexts now cmd node vhost contexts m).2 =
        contexts.map (carries (appContexts now cmd node vhost contexts m).1 node vhost) ∧
      ∀ c ∈ contexts, carries (appContexts now cmd node vhost contexts m).1 node vhost c = false →
        (appContexts now cmd node vhost contexts m).1.grab = none := by
  induction contexts generalizing m with
  | nil =>
    refine ⟨Given.refl.congr fun x v => ?_, hkeyed, rfl, List.forall_mem_nil _⟩
    simp
  | cons context rest ih =>
    obtain ⟨hfit, hrest⟩ := List.forall_mem_cons.1 hfits
    have hone := @insertUpdateContext_given m now cmd node vhost context hkeyed
    rw [appContexts, helper_eq hcmd hfit]
    cases hput : insertUpdateContext now m (storedContext cmd node vhost context) with
    | some m' =>
      rw [hput] at hone
      obtain ⟨hgiven, hkeyed', hcarries⟩ := hone
      obtain ⟨hgiven', hkeyed'', hflags, hfull⟩ := ih hrest hkeyed'
      have hhead := hgiven'.carries hcarries
      simp only
      refine ⟨(hgiven.trans hgiven').congr fun x v => ?_, hkeyed'', ?_, ?_⟩
      · rw [List.mem_cons, or_and_right]
      · rw [List.map_cons, hhead, ← hflags]
      · refine List.forall_mem_cons.2 ⟨fun hfalse => ?_, hfull⟩
        rw [hhead] at hfalse
        cases hfalse
    | none =>
      rw [hput] at hone
      obtain ⟨hgrab, hcarries⟩ := hone
      obtain ⟨hgiven', hkeyed'', hflags, hfull⟩ := ih hrest hkeyed
      obtain ⟨hgrab', hsame⟩ := @Given.full _ _ _ _ _ vhost context _ hgiven' hgrab
      simp only
      have hnone (j : Nat) (c : Contextinfo) (hc : m.used j = some c) :
          ¬ (c.node = node ∧ c.context = context ∧ c.vhost = vhost) := by
        rintro ⟨hn, hx, hv⟩
        rw [carries_iff.2 ⟨j, c, hc, hn, hv, hx⟩] at hcarries
        cases hcarries
      refine ⟨⟨hgiven'.size, fun j c hc hn hnamed => ?_, fun j c hc hnot => ?_, fun j c hfree hc => ?_⟩,
        hkeyed'', ?_, ?_⟩
      · refine hgiven'.changed j c hc hn ⟨(List.mem_cons.1 hnamed.1).resolve_left ?_, hnamed.2⟩
        rintro hx
        exact hnone j c hc ⟨hn, hx, hnamed.2⟩
      · refine hgiven'.others j c hc fun hboth => hnot ⟨hboth.1, List.mem_cons_of_mem _ hboth.2.1, hboth.2.2⟩
      · obtain ⟨hn, hnamed, hstatus⟩ := hgiven'.added j c hfree hc
        exact ⟨hn, ⟨List.mem_cons_of_mem _ hnamed.1, hnamed.2⟩, hstatus⟩
      · rw [List.map_cons, hsame, hcarries, ← hflags]
      · exact List.forall_mem_cons.2 ⟨fun _ => hgrab', hfull⟩

end Contexts

/-! ## Hosts -/

/-- The hosts that were there stay as they are. New ones are of the node, for aliases of
the command. -/
structure HostsMade (node : Int) (aliases : List Str) (m m' : Table Hostinfo) : Prop where
  size : m'.size = m.size
  stay : ∀ j x, m.used j = some x → m'.used j = some x
  made : ∀ j x, m.used j = none → m'.used j = some x → x.node = node ∧ x.host ∈ aliases

/-- The node has a host with the alias, and the context on it. -/
def carriedBy (ts : Tables) (node : Int) (host context : Str) : Bool :=
  ts.hosts.records.any fun x => x.node == node && x.host == host && carries ts.contexts node x.vhost context

section Hosts

variable {m m' m'' : Table Hostinfo} {now : Int} {cmd : ContextStatus} {node vid : Int} {host context : Str}
  {aliases contexts : List Str} {ts : Tables}

theorem carriedBy_iff : carriedBy ts node host context = true ↔
    ∃ j x, ts.hosts.used j = some x ∧ x.node = node ∧ x.host = host ∧
      carries ts.contexts node x.vhost context = true := by
  unfold carriedBy
  simp only [List.any_eq_true, mem_records, Bool.and_eq_true, beq_iff_eq]
  constructor
  · rintro ⟨x, ⟨j, hx⟩, ⟨hn, hh⟩, hc⟩
    exact ⟨j, x, hx, hn, hh, hc⟩
  · rintro ⟨j, x, hx, hn, hh, hc⟩
    exact ⟨x, ⟨j, hx⟩, ⟨hn, hh⟩, hc⟩

theorem HostsMade.refl (node : Int) (aliases : List Str) (m : Table Hostinfo) : HostsMade node aliases m m where
  size := rfl
  stay _ _ hx := hx
  made j x hnone hx := by
    rw [hnone] at hx
    cases hx

theorem HostsMade.cons (h : HostsMade node [host] m m') (h' : HostsMade node aliases m' m'') :
    HostsMade node (host :: aliases) m m'' where
  size := h'.size.trans h.size
  stay j x hx := h'.stay j x (h.stay j x hx)
  made j x hnone hx := by
    cases hmid : m'.used j with
    | none =>
      obtain ⟨hn, hmem⟩ := h'.made j x hmid hx
      exact ⟨hn, List.mem_cons_of_mem _ hmem⟩
    | some y =>
      cases hx.symm.trans (h'.stay j y hmid)
      obtain ⟨hn, hmem⟩ := h.made j x hnone hmid
      exact ⟨hn, by rw [List.mem_singleton.1 hmem]; exact List.mem_cons_self ..⟩

theorem HostsMade.full (h : HostsMade node aliases m m') (hfull : m.grab = none) {j : Nat} {x : Hostinfo}
    (hx : m'.used j = some x) : m.used j = some x := by
  have hlt := used_lt hx
  rw [h.size] at hlt
  obtain ⟨y, hy⟩ := grab_eq_none hfull j hlt
  cases hx.symm.trans (h.stay j y hy)
  exact hy

theorem appHost_made (hcmd : cmd ≠ .remove) (hids : m.IdsMatch (·.id)) (hfits : host.length ≤ HOSTALIASZ)
    {r : Option Nat} {vid' : Int} (h : appHost now cmd m node vid host = (r, m', vid')) :
    HostsMade node [host] m m' ∧ match r with
      | some i => ∃ x, m'.used i = some x ∧ x.node = node ∧ x.host = host
      | none => m'.grab = none ∧ ∀ j x, m'.used j = some x → ¬ (x.node = node ∧ x.host = host) := by
  have htake : truncate HOSTALIASZ host = host := List.take_of_length_le hfits
  cases hf : m.first (hasAlias (truncate HOSTALIASZ host) node) with
  | some i =>
    rw [appHost_found hids hf] at h
    cases h
    obtain ⟨x, hx, hal, -⟩ := first_eq_some hf
    obtain ⟨hh, hn⟩ := hasAlias_iff.1 hal
    exact ⟨HostsMade.refl _ _ _, x, hx, hn, hh.trans htake⟩
  | none =>
    have hmiss (j : Nat) (x : Hostinfo) (hx : m.used j = some x) : ¬ (x.node = node ∧ x.host = host) := by
      rintro ⟨hn, hh⟩
      have hno := first_eq_none.1 hf j x hx
      rw [hasAlias_iff.2 ⟨hh.trans htake.symm, hn⟩] at hno
      cases hno
    rw [appHost_new hids hcmd hf] at h
    cases hg : m.grab with
    | none =>
      rw [hg] at h
      cases h
      exact ⟨HostsMade.refl _ _ _, hg, hmiss⟩
    | some g =>
      obtain ⟨i, m₁⟩ := g
      obtain ⟨hlt, hfree, -⟩ := grab_eq_some hg
      rw [hg] at h
      cases h
      refine ⟨⟨size_store _ _ _, fun j x hx => ?_, fun j x hnone hx => ?_⟩, _, used_store_self _ hlt, rfl, htake⟩
      · have hij : i ≠ j := by
          rintro rfl
          rw [hfree] at hx
          cases hx
        rw [used_store_ne _ hij, hx]
      · rcases used_of_store hx with ⟨rfl, rfl⟩ | ⟨-, hx⟩
        · exact ⟨rfl, List.mem_singleton.2 htake⟩
        · rw [hnone] at hx
          cases hx

theorem NoClash.same (h : NoClash m) {i j : Nat} {x y : Hostinfo} (hx : m.used i = some x) (hy : m.used j = some y)
    (hnode : x.node = y.node) (hsame : x.host = y.host ∨ x.vhost = y.vhost) : i = j ∧ x = y := by
  have hij : i = j := by
    by_contra hne
    obtain ⟨hhost, hvhost⟩ := h i j x y hx hy hne hnode
    exact hsame.elim hhost hvhost
  subst hij
  cases hx.symm.trans hy
  exact ⟨rfl, rfl⟩

/-- The vhost is of a host of the node that the command names. -/
def OnNamed (m : Table Hostinfo) (node : Int) (aliases : List Str) (vhost : Int) : Prop :=
  ∃ j x, m.used j = some x ∧ x.node = node ∧ x.host ∈ aliases ∧ x.vhost = vhost

theorem appAliases_given (hcmd : cmd ≠ .remove) (hcontexts : ∀ c ∈ contexts, c.length ≤ CONTEXTSZ)
    (haliases : ∀ a ∈ aliases, a.length ≤ HOSTALIASZ) (hok : IdsOk ts) (hknown : NodeKnown ts node)
    (hclash : NoClash ts.hosts) (hkeyed : ts.contexts.Distinct Contextinfo.key) :
    HostsMade node aliases ts.hosts (appAliases now cmd node contexts aliases vid ts).1.hosts ∧
      Given now cmd node
        (fun x v => x ∈ contexts ∧ OnNamed (appAliases now cmd node contexts aliases vid ts).1.hosts node aliases v)
        ts.contexts (appAliases now cmd node contexts aliases vid ts).1.contexts ∧
      (appAliases now cmd node contexts aliases vid ts).2 =
        aliases.map fun a => contexts.map (carriedBy (appAliases now cmd node contexts aliases vid ts).1 node a) := by
  induction aliases generalizing ts vid with
  | nil =>
    refine ⟨HostsMade.refl _ _ _, Given.refl.congr fun x v => ?_, rfl⟩
    simp [OnNamed]
  | cons host rest ih =>
    obtain ⟨hfit, hrest⟩ := List.forall_mem_cons.1 haliases
    obtain ⟨r, hosts, vid', hh⟩ : ∃ r hosts vid', appHost now cmd ts.hosts node vid host = (r, hosts, vid') :=
      ⟨_, _, _, rfl⟩
    obtain ⟨hmade, hhost⟩ := appHost_made hcmd hok.hosts hfit hh
    obtain ⟨k, n, hn, hk⟩ := hknown
    obtain ⟨he, hused⟩ := @appHost_edits False ts now cmd node vid vid' host hosts r hok ⟨k, n, hn, hk, False.elim⟩ hh
    have hclash' : NoClash hosts := appHost_noClash hok.hosts hclash hh
    rw [appAliases, hh]
    cases r with
    | none =>
      obtain ⟨hfull, hmiss⟩ := hhost
      simp only
      obtain ⟨hmade', hgiven, hflags⟩ := @ih vid' { ts with hosts := hosts } hrest (he.idsOk hok) ⟨k, n, hn, hk⟩
        hclash' hkeyed
      obtain ⟨final, hfinal⟩ : ∃ final, (appAliases now cmd node contexts rest vid' { ts with hosts := hosts }).1 =
        final := ⟨_, rfl⟩
      rw [hfinal] at hmade' hgiven hflags ⊢
      have hmiss' (j : Nat) (x : Hostinfo) (hx : final.hosts.used j = some x) : ¬ (x.node = node ∧ x.host = host) :=
        hmiss j x (hmade'.full hfull hx)
      refine ⟨hmade.cons hmade', hgiven.congr fun x v => and_congr_right fun _ => ?_, ?_⟩
      · constructor
        · rintro ⟨j, y, hy, hyn, hmem, hyv⟩
          exact ⟨j, y, hy, hyn, List.mem_cons_of_mem _ hmem, hyv⟩
        · rintro ⟨j, y, hy, hyn, hmem, hyv⟩
          exact ⟨j, y, hy, hyn, (List.mem_cons.1 hmem).resolve_left fun heq => hmiss' j y hy ⟨hyn, heq⟩, hyv⟩
      · rw [List.map_cons, hflags]
        congr 1
        refine List.map_congr_left fun c _ => ?_
        rw [eq_comm, Bool.eq_false_iff]
        intro hcarried
        obtain ⟨j, y, hy, hyn, hyh, -⟩ := carriedBy_iff.1 hcarried
        exact hmiss' j y hy ⟨hyn, hyh⟩
    | some i =>
      obtain ⟨x, hx, hxn, hxh⟩ := hhost
      have hvhost : (hosts.peek i).vhost = x.vhost := by rw [peek_of_used hx]
      simp only [if_neg hcmd, hvhost]
      obtain ⟨hgiven, hkeyed', hflags, hroom⟩ :=
        @appContexts_given ts.contexts now cmd node x.vhost hcmd contexts hcontexts hkeyed
      have hhost : HostUsed { ts with hosts := hosts } node x.vhost := ⟨i, x, hx, hxn, rfl⟩
      have hc := he.trans (@appContexts_edits _ _ now cmd _ _ contexts (he.idsOk hok) hhost)
      obtain ⟨contexts', hcontexts'⟩ : ∃ contexts', (appContexts now cmd node x.vhost contexts ts.contexts).1 =
        contexts' := ⟨_, rfl⟩
      simp only [hcontexts'] at hgiven hkeyed' hflags hroom hc ⊢
      rw [hflags]
      have hok' : IdsOk { ts with hosts := hosts, contexts := contexts' } := hc.idsOk hok
      obtain ⟨hmade', hgiven', hflags'⟩ := @ih vid' { ts with hosts := hosts, contexts := contexts' } hrest hok'
        ⟨k, n, hn, hk⟩ hclash' hkeyed'
      have hfinalClash := @appAliases_noClash now cmd { ts with hosts := hosts, contexts := contexts' } node contexts
        rest vid' hok' ⟨k, n, hn, hk⟩ hclash'
      obtain ⟨final, hfinal⟩ : ∃ final, (appAliases now cmd node contexts rest vid'
        { ts with hosts := hosts, contexts := contexts' }).1 = final := ⟨_, rfl⟩
      rw [hfinal] at hmade' hgiven' hflags' hfinalClash ⊢
      have hxfinal : final.hosts.used i = some x := hmade'.stay i x hx
      -- The host that was found or made is the only one with the alias.
      have honly (j : Nat) (y : Hostinfo) (hy : final.hosts.used j = some y) (hyn : y.node = node)
          (hyh : y.host = host) : x = y :=
        (hfinalClash.same hxfinal hy (hxn.trans hyn.symm) (Or.inl (hxh.trans hyh.symm))).2
      refine ⟨hmade.cons hmade', (hgiven.trans hgiven').congr fun w v => ?_, ?_⟩
      · rw [← and_or_left]
        refine and_congr_right fun _ => ?_
        constructor
        · rintro (rfl | ⟨j, y, hy, hyn, hmem, hyv⟩)
          · exact ⟨i, x, hxfinal, hxn, by rw [hxh]; exact List.mem_cons_self .., rfl⟩
          · exact ⟨j, y, hy, hyn, List.mem_cons_of_mem _ hmem, hyv⟩
        · rintro ⟨j, y, hy, hyn, hmem, hyv⟩
          rcases List.mem_cons.1 hmem with heq | hmem
          · left
            rw [← hyv, honly j y hy hyn heq]
          · exact Or.inr ⟨j, y, hy, hyn, hmem, hyv⟩
      · rw [List.map_cons, hflags']
        congr 1
        refine List.map_congr_left fun c hcmem => ?_
        have hcarried : carriedBy final node host c = carries final.contexts node x.vhost c := by
          rw [Bool.eq_iff_iff, carriedBy_iff]
          constructor
          · rintro ⟨j, y, hy, hyn, hyh, hc⟩
            rw [honly j y hy hyn hyh]
            exact hc
          · intro hc
            exact ⟨i, x, hxfinal, hxn, hxh, hc⟩
        rw [hcarried]
        cases hfirst : carries contexts' node x.vhost c with
        | true => exact (hgiven'.carries hfirst).symm
        | false =>
          have hnone := hroom c hcmem hfirst
          rw [(@Given.full _ _ _ _ _ x.vhost c _ hgiven' hnone).2, hfirst]

end Hosts

end ModCluster
