import ModCluster.RoutingSpec
import ModCluster.ElectionSpec

/-!
# Requests on their way

Before a request gets its worker, its notes come from the calls that translate it.
What the stored result of the context search names was open to the request when
one of these calls looked.
-/

open CString Slotmem

namespace ModCluster

/-- A moment when the contexts are searched: the balancers of the server and the
request as they are by then. -/
structure Look where
  conf : List ProxyBalancer
  request : Request

/-- The route is in the notes, or in the session id under the names of a balancer. -/
def CarriesRoute (l : Look) : Prop :=
  (∃ route, l.request.notes.sessionRoute = some route ∧ route ≠ []) ∨
    ∃ b ∈ l.conf, ∃ sessionid route, (clusterGetSessionid l.request b.stickyval l.request.uri).1 = some sessionid ∧
      sessionRouteOf sessionid = some route ∧ route ≠ []

/-- There is a session id under the names of the balancer of the node. -/
def CarriesSessionId (s : Snapshot) (l : Look) (node : Int) : Prop :=
  ∃ n, tableGetNode s.nodes node = some n ∧ ∃ b ∈ l.conf, b.isFor n.mess.balancer = true ∧
    (clusterGetSessionid l.request b.stickyval l.request.sessionUri).1.isSome = true

def PathServed (uri context : Str) : Prop :=
  uri = context ∨ (∃ rest, uri = context ++ ch '/' :: rest) ∨ context.length = 1 ∧ context <+: uri

/-- The context reaches the request: its path fits, and so does its host. -/
structure Reaches (useAlias : Bool) (s : Snapshot) (r : Request) (c : Contextinfo) : Prop where
  path : PathServed (cutUri r.uri.str) c.context
  host : useAlias = true → ∃ v ∈ s.vhosts, v.node = c.node ∧ v.vhost = c.vhost ∧ v.host = r.serverName

/-- The context may serve the request, by one of the looks. -/
def IsOpen (s : Snapshot) (Known : Look → Prop) (c : Contextinfo) : Prop :=
  c.status = .enabled ∨ c.status = .disabled ∧ ∃ l, Known l ∧ (CarriesRoute l ∨ CarriesSessionId s l c.node)

/-- Node `node` serves the request. -/
def NodeServes (useAlias : Bool) (s : Snapshot) (Known : Look → Prop) (r : Request) (node : Int) : Prop :=
  ∃ c ∈ s.contexts, c.node = node ∧ Reaches useAlias s r c ∧ IsOpen s Known c

/-- All nodes that the note names serve the request. -/
def NoteOk (useAlias : Bool) (s : Snapshot) (Known : Look → Prop) (r : Request) : Prop :=
  ∀ best, r.notes.proxyContext = some best → ∀ e ∈ best, NodeServes useAlias s Known r e.node

variable {httpd : Httpd} {useAlias : Bool} {s : Snapshot} {Known Known' : Look → Prop} {conf : List ProxyBalancer}
  {r r' : Request} {balancer : Option ProxyBalancer} {route : Option Str} {c : Contextinfo}

/-! ## One search -/

theorem pathServed_of_pathMatches {uri context : Str} (h : pathMatches uri context = true) : PathServed uri context := by
  unfold pathMatches at h
  rw [Bool.and_eq_true, List.isPrefixOf_iff_prefix] at h
  obtain ⟨⟨rest, rfl⟩, hend⟩ := h
  rw [Bool.or_eq_true, Bool.or_eq_true, beq_iff_eq, beq_iff_eq, beq_iff_eq] at hend
  rcases hend with (hlen | hslash) | hone
  · rw [List.length_append] at hlen
    have hnil : rest = [] := List.eq_nil_of_length_eq_zero (by omega)
    exact Or.inl (by rw [hnil, List.append_nil])
  · refine Or.inr (Or.inl ?_)
    have hfirst : byteAt rest 0 = ch '/' := by
      rw [← hslash, byteAt, byteAt, List.getD_eq_getElem?_getD, List.getD_eq_getElem?_getD,
        List.getElem?_append_right (Nat.le_refl _), Nat.sub_self]
    cases rest with
    | nil => exact absurd hfirst (by decide)
    | cons x rest => exact ⟨rest, by rw [← hfirst]; rfl⟩
  · exact Or.inr (Or.inr ⟨hone, List.prefix_append _ _⟩)

theorem reaches_of_matches (h : Matches useAlias s r balancer c) : Reaches useAlias s r c := by
  obtain ⟨-, hcons, hpath⟩ := h
  refine ⟨pathServed_of_pathMatches hpath, fun halias => ?_⟩
  rw [considered, Bool.and_eq_true, hostOk, halias] at hcons
  simp only [Bool.not_true, Bool.false_or, List.any_eq_true, Bool.and_eq_true, beq_iff_eq] at hcons
  obtain ⟨⟨v, hv, ⟨hhost, hvhost⟩, hnode⟩, -⟩ := hcons
  exact ⟨v, hv, hnode.symm, hvhost.symm, hhost⟩

theorem isOpen_of_statusOk (hroute : route.getD [] ≠ [] → CarriesRoute ⟨conf, r⟩) (hknown : Known ⟨conf, r⟩)
    (h : statusOk conf s r route c = true) : IsOpen s Known c := by
  unfold statusOk at h
  split at h
  · rename_i hstatus
    exact Or.inl hstatus
  · rename_i hstatus
    refine Or.inr ⟨hstatus, ⟨conf, r⟩, hknown, ?_⟩
    unfold hassessionByname at h
    split at h
    · rename_i hne
      exact Or.inl (hroute hne)
    split at h
    · cases h
    rename_i node hnode
    split at h
    · cases h
    rename_i b hb
    have hfor : b.isFor node.mess.balancer = true := by simpa using List.find?_some hb
    exact Or.inr ⟨node, hnode, b, List.mem_of_find?_eq_some hb, hfor, h⟩
  · cases h

theorem searchNodes_serves (hroute : route.getD [] ≠ [] → CarriesRoute ⟨conf, r⟩) (hknown : Known ⟨conf, r⟩)
    {best : List NodeContext} (h : searchNodes useAlias s conf r balancer route = some best) :
    ∀ e ∈ best, NodeServes useAlias s Known r e.node := by
  intro e he
  rw [searchNodes_eq_some h] at he
  obtain ⟨c, hc, rfl⟩ := List.mem_map.mp he
  obtain ⟨hmem, hserves⟩ := mem_served.mp hc
  exact ⟨c, hmem, rfl, reaches_of_matches hserves.fits, isOpen_of_statusOk hroute hknown hserves.isOpen⟩

/-! ## What does not matter -/

theorem IsOpen.mono (h : IsOpen s Known c) (hk : ∀ l, Known l → Known' l) : IsOpen s Known' c := by
  rcases h with h | ⟨hstatus, l, hl, hcarries⟩
  · exact Or.inl h
  · exact Or.inr ⟨hstatus, l, hk l hl, hcarries⟩

theorem NodeServes.mono {node : Int} (h : NodeServes useAlias s Known r node) (hk : ∀ l, Known l → Known' l) :
    NodeServes useAlias s Known' r node := by
  obtain ⟨c, hc, hnode, hreaches, hopen⟩ := h
  exact ⟨c, hc, hnode, hreaches, hopen.mono hk⟩

theorem NodeServes.congr {node : Int} (h : NodeServes useAlias s Known r node) (huri : r'.uri = r.uri)
    (hname : r'.serverName = r.serverName) : NodeServes useAlias s Known r' node := by
  obtain ⟨c, hc, hnode, hreaches, hopen⟩ := h
  refine ⟨c, hc, hnode, ⟨?_, ?_⟩, hopen⟩
  · rw [huri]
    exact hreaches.path
  · rw [hname]
    exact hreaches.host

theorem NoteOk.mono (h : NoteOk useAlias s Known r) (hk : ∀ l, Known l → Known' l) : NoteOk useAlias s Known' r :=
  fun best hbest e he => (h best hbest e he).mono hk

theorem NoteOk.congr (h : NoteOk useAlias s Known r) (hnote : r'.notes.proxyContext = r.notes.proxyContext)
    (huri : r'.uri = r.uri) (hname : r'.serverName = r.serverName) : NoteOk useAlias s Known r' := by
  intro best hbest e he
  rw [hnote] at hbest
  exact (h best hbest e he).congr huri hname

theorem clusterGetSessionid_congr (h : r'.cookie = r.cookie) (stickyval : Str) (uri : Text) :
    clusterGetSessionid r' stickyval uri = clusterGetSessionid r stickyval uri := by
  unfold clusterGetSessionid
  rw [h]

theorem SameRequest.sessionUri (h : SameRequest r r') : r'.sessionUri = r.sessionUri := by
  unfold Request.sessionUri
  rw [h.filename, h.unparsedUri]

theorem SameRequest.searchNodes (h : SameRequest r r') :
    searchNodes useAlias s conf r' balancer route = searchNodes useAlias s conf r balancer route := by
  have hlen : matchLength useAlias s r' balancer = matchLength useAlias s r balancer := by
    funext c
    unfold matchLength considered
    rw [h.uri, h.serverName]
  have hsession : hassessionByname conf s.nodes r' = hassessionByname conf s.nodes r := by
    funext nodeid route
    unfold hassessionByname
    simp only [h.sessionUri, clusterGetSessionid_congr h.cookie]
  have hstatus : statusOk conf s r' route = statusOk conf s r route := by
    funext c
    unfold statusOk
    rw [hsession]
  unfold ModCluster.searchNodes
  rw [hlen, hstatus]

/-! ## A search with its note -/

theorem findNodeContextHost_serves {r₀ : Request} (hsame : SameRequest r₀ r)
    (hroute : route.getD [] ≠ [] → CarriesRoute ⟨conf, r₀⟩) (hknown : Known ⟨conf, r₀⟩)
    (hnote : NoteOk useAlias s Known r) :
    NoteOk useAlias s Known (findNodeContextHost useAlias s conf r balancer route).1 ∧
      ∀ best, (findNodeContextHost useAlias s conf r balancer route).2 = some best →
        ∀ e ∈ best, NodeServes useAlias s Known r e.node := by
  unfold findNodeContextHost
  split
  · rename_i best hbest
    refine ⟨hnote, fun best' hbest' => ?_⟩
    cases hbest'
    exact hnote best hbest
  · split
    · exact ⟨hnote, fun best hbest => by cases hbest⟩
    · rename_i best hsearch
      rw [hsame.searchNodes] at hsearch
      have hserves : ∀ e ∈ best, NodeServes useAlias s Known r e.node := fun e he =>
        (searchNodes_serves hroute hknown hsearch e he).congr hsame.uri hsame.serverName
      refine ⟨fun best' hbest' e he => ?_, fun best' hbest' => ?_⟩
      · cases hbest'
        exact (hserves e he).congr rfl rfl
      · cases hbest'
        exact hserves

/-! ## Translation -/

theorem findNodeContextHost_same : SameRequest r (findNodeContextHost useAlias s conf r balancer route).1 := by
  unfold findNodeContextHost
  split
  · exact SameRequest.refl r
  · split
    · exact SameRequest.refl r
    · exact ⟨rfl, rfl, rfl, rfl, rfl, rfl⟩

theorem findNodeContextHost_domain :
    (findNodeContextHost useAlias s conf r balancer route).1.notes.clusterDomain = r.notes.clusterDomain := by
  unfold findNodeContextHost
  split
  · rfl
  · split <;> rfl

/-- What the translation keeps: the note is good, and a domain is not empty. -/
structure NotesOk (useAlias : Bool) (s : Snapshot) (Known : Look → Prop) (r : Request) : Prop where
  note : NoteOk useAlias s Known r
  domain : r.notes.clusterDomain ≠ some []

theorem findNodedomain_ne_nil {nodes : List NodeEntry} {route balancer : Str} {domain : Option Str}
    (h : findNodedomain nodes route balancer = some domain) : domain ≠ some [] := by
  unfold findNodedomain at h
  rw [Option.map_eq_some_iff] at h
  obtain ⟨n, -, rfl⟩ := h
  split
  · simp
  · rename_i hne
    exact fun hnil => hne (Option.some.inj hnil)

theorem routeBalancerStep_ok {r₀ : Request} {b : ProxyBalancer} (hb : b ∈ conf) (hsame : SameRequest r₀ r)
    (hknown : Known ⟨conf, r₀⟩) (hok : NotesOk useAlias s Known r) :
    NotesOk useAlias s Known (routeBalancerStep useAlias s conf b r).1 ∧
      ((routeBalancerStep useAlias s conf b r).2 = none →
        SameRequest r₀ (routeBalancerStep useAlias s conf b r).1) := by
  unfold routeBalancerStep
  split
  swap
  · exact ⟨hok, fun _ => hsame⟩
  split
  · exact ⟨hok, fun _ => hsame⟩
  rename_i sessionid stickyUsed hsession
  have hsession₀ : (clusterGetSessionid r₀ b.stickyval r₀.uri).1 = some sessionid := by
    rw [← clusterGetSessionid_congr hsame.cookie, ← hsame.uri, hsession]
  have hsame' : SameRequest r₀ (r.setSessionId sessionid) := hsame.trans ⟨rfl, rfl, rfl, rfl, rfl, rfl⟩
  have hnote' : NoteOk useAlias s Known (r.setSessionId sessionid) := hok.note.congr rfl rfl rfl
  simp only
  split
  · exact ⟨⟨hnote', hok.domain⟩, fun _ => hsame'⟩
  rename_i route hroute
  split
  · exact ⟨⟨hnote', hok.domain⟩, fun _ => hsame'⟩
  rename_i hne
  -- The session id of the request names the route.
  have hfind := @findNodeContextHost_serves _ _ _ _ _ (some b) (some route) _ hsame'
    (fun _ => Or.inr ⟨b, hb, sessionid, route, hsession₀, hroute, hne⟩) hknown hnote'
  have hfound := hsame'.trans (@findNodeContextHost_same useAlias s conf _ (some b) (some route))
  have hdom : (findNodeContextHost useAlias s conf (r.setSessionId sessionid) (some b)
      (some route)).1.notes.clusterDomain ≠ some [] := by
    rw [findNodeContextHost_domain]
    exact hok.domain
  split
  · rename_i r' heq
    rw [heq] at hfind hfound hdom
    exact ⟨⟨hfind.1, hdom⟩, fun _ => hfound⟩
  rename_i r' best heq
  rw [heq] at hfind hfound hdom
  split
  · exact ⟨⟨hfind.1, hdom⟩, fun _ => hfound⟩
  rename_i domain hdomain
  refine ⟨⟨hfind.1.congr rfl rfl rfl, ?_⟩, fun hnone => by cases hnone⟩
  have hnew := findNodedomain_ne_nil hdomain
  simp only [Request.setRoute]
  cases domain with
  | none => exact hdom
  | some d => exact hnew

theorem routeBalancerLoop_ok {r₀ : Request} (rest : List ProxyBalancer) (hrest : ∀ b ∈ rest, b ∈ conf)
    (hsame : SameRequest r₀ r) (hknown : Known ⟨conf, r₀⟩) (hok : NotesOk useAlias s Known r) :
    NotesOk useAlias s Known (routeBalancerLoop useAlias s conf rest r).1 := by
  induction rest generalizing r with
  | nil => exact hok
  | cons b rest ih =>
    have hstep := routeBalancerStep_ok (hrest b List.mem_cons_self) hsame hknown hok
    unfold routeBalancerLoop
    split
    · rename_i r' name heq
      rw [heq] at hstep
      exact hstep.1
    · rename_i r' heq
      rw [heq] at hstep
      exact ih (fun b hb => hrest b (List.mem_cons_of_mem _ hb)) (hstep.2 rfl) hstep.1

theorem getContextHostBalancer_ok (hknown : Known ⟨conf, r⟩) (hok : NotesOk useAlias s Known r) :
    NotesOk useAlias s Known (getContextHostBalancer httpd useAlias s conf r).1 := by
  have hfind := @findNodeContextHost_serves _ _ _ _ _ none none _ (SameRequest.refl r)
    (fun h => absurd rfl h) hknown hok.note
  have hdom := @findNodeContextHost_domain useAlias s conf r none none
  unfold getContextHostBalancer
  split
  · rename_i r' heq
    rw [heq] at hfind hdom
    exact ⟨hfind.1, by rw [hdom]; exact hok.domain⟩
  · rename_i r' best heq
    rw [heq] at hfind hdom
    exact ⟨hfind.1, by rw [hdom]; exact hok.domain⟩

/-- A request that has come through any number of translations and canonisations of
its url, and the looks they made. -/
inductive Handled (httpd : Httpd) (useAlias : Bool) (s : Snapshot) : List Look → Request → Prop
  | arrives (r : Request) (h : r.notes = Notes.empty) : Handled httpd useAlias s [] r
  | getRouteBalancer {looks : List Look} {r : Request} (conf : List ProxyBalancer)
      (h : Handled httpd useAlias s looks r) :
      Handled httpd useAlias s (⟨conf, r⟩ :: looks) (getRouteBalancer useAlias s conf r).1
  | getContextHostBalancer {looks : List Look} {r : Request} (conf : List ProxyBalancer)
      (h : Handled httpd useAlias s looks r) :
      Handled httpd useAlias s (⟨conf, r⟩ :: looks) (getContextHostBalancer httpd useAlias s conf r).1
  | setFilename {looks : List Look} {r : Request} (filename : Option Text) (h : Handled httpd useAlias s looks r) :
      Handled httpd useAlias s looks { r with filename := filename }

theorem Handled.notesOk {looks : List Look} (h : Handled httpd useAlias s looks r) :
    NotesOk useAlias s (· ∈ looks) r := by
  induction h with
  | arrives r hr =>
    refine ⟨fun best hbest => ?_, ?_⟩
    · rw [hr] at hbest
      cases hbest
    · rw [hr]
      simp [Notes.empty]
  | @getRouteBalancer looks r conf _ ih =>
    exact routeBalancerLoop_ok conf (fun _ hb => hb) (SameRequest.refl r) List.mem_cons_self
      ⟨ih.note.mono fun _ hl => List.mem_cons_of_mem _ hl, ih.domain⟩
  | @getContextHostBalancer looks r conf _ ih =>
    exact getContextHostBalancer_ok List.mem_cons_self
      ⟨ih.note.mono fun _ hl => List.mem_cons_of_mem _ hl, ih.domain⟩
  | setFilename filename _ ih => exact ⟨ih.note.congr rfl rfl rfl, ih.domain⟩

end ModCluster
