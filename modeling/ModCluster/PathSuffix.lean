import ModCluster.ContextSearch

/-!
# Parameters and routing

The search cuts the path at its first question mark, and only without one at its first
semicolon. Of a path with both, the part in front of the question mark keeps its path
parameters, and the contexts are compared with it.
-/

open CString Slotmem

namespace ModCluster

def Request.asking (r : Request) (uri : Text) : Request := { r with uri := uri }

/-! ## The cut -/

section Cut

variable {u x : Str}

/-- The parameters come first and a question mark follows. -/
def KeepsParameters (x : Str) : Prop := x.head? = some (ch ';') ∧ ch '?' ∈ x

instance : Decidable (KeepsParameters x) := inferInstanceAs (Decidable (_ ∧ _))

/-- What is left of the suffix. -/
def keptSuffix (x : Str) : Str := x.takeWhile (· != ch '?')

theorem takeWhile_suffix {c : Byte} (hu : c ∉ u) :
    (u ++ x).takeWhile (· != c) = u ++ x.takeWhile (· != c) :=
  List.takeWhile_append_of_pos fun _ hb => bne_iff_ne.mpr fun h => hu (h ▸ hb)

theorem takeWhile_of_head {c : Byte} (hx : x = [] ∨ x.head? = some c) : x.takeWhile (· != c) = [] := by
  cases x with
  | nil => rfl
  | cons b x =>
    have hb : b = c := Option.some.inj (hx.resolve_left (List.cons_ne_nil b x))
    rw [List.takeWhile_cons_of_neg]
    simp [hb]

theorem cutUri_plain (hquery : ch '?' ∉ u) (hparam : ch ';' ∉ u) : cutUri u = u := by
  have h := takeWhile_suffix (x := []) hparam
  rw [List.append_nil] at h
  rw [cutUri, if_neg (by rwa [List.contains_iff_mem]), h]
  exact List.append_nil u

theorem cutUri_suffix (hquery : ch '?' ∉ u) (hparam : ch ';' ∉ u)
    (hx : x = [] ∨ x.head? = some (ch ';') ∨ x.head? = some (ch '?')) :
    cutUri (u ++ x) = if KeepsParameters x then u ++ keptSuffix x else u := by
  unfold cutUri
  by_cases hmem : ch '?' ∈ x
  · rw [if_pos (by rw [List.contains_iff_mem]; exact List.mem_append_right u hmem), takeWhile_suffix hquery]
    by_cases hhead : x.head? = some (ch ';')
    · rw [if_pos ⟨hhead, hmem⟩]
      rfl
    · rw [if_neg fun h => hhead h.1, takeWhile_of_head (hx.imp_right fun h => h.resolve_left hhead), List.append_nil]
  · have hneither : ch '?' ∉ u ++ x := by
      rw [List.mem_append, not_or]
      exact ⟨hquery, hmem⟩
    have hhead : x = [] ∨ x.head? = some (ch ';') :=
      hx.imp_right fun h => h.resolve_right fun h => hmem (List.mem_of_head? h)
    rw [if_neg (by rwa [List.contains_iff_mem]), if_neg fun h => hmem h.2, takeWhile_suffix hparam,
      takeWhile_of_head hhead, List.append_nil]

end Cut

/-! ## The contexts that tell the two paths apart -/

section Fits

variable {useAlias : Bool} {s : Snapshot} {conf : List ProxyBalancer} {r : Request} {balancer : Option ProxyBalancer}
  {route u w x : Str} {c : Contextinfo}

/-- The context is called like the whole path, or it matches a part of the parameters. -/
def Distracts (u x : Str) (c : Contextinfo) : Prop :=
  c.context = u ∧ 2 ≤ u.length ∨ u.length < c.context.length ∧ MatchesPath (u ++ keptSuffix x) c

/-- Each longest match of the path is neither running nor disabled. -/
def Shut (useAlias : Bool) (s : Snapshot) (r : Request) (balancer : Option ProxyBalancer) (w : Str) : Prop :=
  ∀ c ∈ passing useAlias s r balancer, MatchesPath w c → c.context ≠ [] →
    (∀ c' ∈ passing useAlias s r balancer, MatchesPath w c' → c'.context.length ≤ c.context.length) →
      c.status ≠ .enabled ∧ c.status ≠ .disabled

instance : Decidable (Distracts u x c) := inferInstanceAs (Decidable (_ ∨ _))

instance : Decidable (Shut useAlias s r balancer w) :=
  List.decidableBAll _ (passing useAlias s r balancer)

/-- The suffix does not matter to the search. -/
def IgnoresSuffix (useAlias : Bool) (s : Snapshot) (r : Request) (balancer : Option ProxyBalancer) (u x : Str) : Prop :=
  ¬ KeepsParameters x ∨ (∀ c ∈ passing useAlias s r balancer, ¬ Distracts u x c) ∨
    Shut useAlias s r balancer u ∧ Shut useAlias s r balancer (u ++ keptSuffix x)

theorem mem_passing : c ∈ passing useAlias s r balancer ↔ c ∈ s.contexts ∧ considered useAlias s r balancer c = true := by
  rw [passing_eq, List.mem_filter]

theorem statusOk_of_route (hroute : route ≠ []) :
    statusOk conf s r (some route) c = true ↔ c.status = .enabled ∨ c.status = .disabled := by
  rw [statusOk_iff, IsOpenTo]
  have hsession : hassessionByname conf s.nodes r c.node (some route) = true := if_pos hroute
  rw [hsession]
  simp only [and_true]

theorem serves_asking {t : Text} (hroute : route ≠ []) (hw : cutUri t.str = w) :
    Serves useAlias s conf (r.asking t) balancer (some route) c ↔
      (c.context ≠ [] ∧ considered useAlias s r balancer c = true ∧ MatchesPath w c) ∧
      (∀ c' ∈ s.contexts, c'.context ≠ [] → considered useAlias s r balancer c' = true → MatchesPath w c' →
        c'.context.length ≤ c.context.length) ∧
      (c.status = .enabled ∨ c.status = .disabled) := by
  have hmatches : ∀ c' : Contextinfo, Matches useAlias s (r.asking t) balancer c' ↔
      c'.context ≠ [] ∧ considered useAlias s r balancer c' = true ∧ MatchesPath w c' := by
    intro c'
    rw [← hw, ← pathMatches_iff]
    rfl
  rw [serves_iff, statusOk_of_route hroute]
  simp only [hmatches, and_imp]

theorem shut_iff (conf : List ProxyBalancer) {t : Text} (hroute : route ≠ []) (hw : cutUri t.str = w) :
    Shut useAlias s r balancer w ↔ ∀ c ∈ s.contexts, ¬ Serves useAlias s conf (r.asking t) balancer (some route) c := by
  simp only [serves_asking hroute hw, Shut, mem_passing, and_imp]
  constructor
  · intro h c hc hserves
    obtain ⟨⟨hne, hcons, hmatch⟩, hlong, hopen⟩ := hserves
    have hshut := h c hc hcons hmatch hne fun c' hc' hcons' hmatch' => by
      by_cases hne' : c'.context = []
      · rw [hne']
        exact Nat.zero_le _
      · exact hlong c' hc' hne' hcons' hmatch'
    exact hopen.elim hshut.1 hshut.2
  · intro h c hc hcons hmatch hne hlong
    rw [← not_or]
    intro hopen
    exact h c hc ⟨⟨hne, hcons, hmatch⟩, fun c' hc' _ hcons' hmatch' => hlong c' hc' hcons' hmatch', hopen⟩

theorem MatchesPath.length_le (h : MatchesPath w c) : c.context.length ≤ w.length := h.1.length_le

theorem matchesPath_append (y : Str) (hlt : c.context.length < u.length) :
    MatchesPath (u ++ y) c ↔ MatchesPath u c := by
  have hstarts : c.context <+: u ++ y ↔ c.context <+: u :=
    ⟨fun h => List.prefix_of_prefix_length_le h (List.prefix_append u y) hlt.le, fun h => h.trans (List.prefix_append u y)⟩
  have hdrop : (u ++ y).drop c.context.length = u.drop c.context.length ++ y := List.drop_append_of_le_length hlt.le
  have hne : u.drop c.context.length ≠ [] := fun h => absurd (List.drop_eq_nil_iff.mp h) (by omega)
  unfold MatchesPath
  rw [hstarts, hdrop, List.head?_append_of_ne_nil _ hne, List.append_eq_nil_iff]
  simp only [hne, false_and]

theorem keptSuffix_head (hx : KeepsParameters x) : (keptSuffix x).head? = some (ch ';') := by
  obtain ⟨hhead, -⟩ := hx
  cases x with
  | nil => cases hhead
  | cons b x =>
    cases hhead
    rfl

theorem matchesPath_iff (hc : ¬ Distracts u x c) (hne : c.context ≠ []) :
    MatchesPath (u ++ keptSuffix x) c ↔ MatchesPath u c := by
  rw [Distracts, not_or, not_and, not_and] at hc
  rcases Nat.lt_trichotomy c.context.length u.length with hlt | heq | hgt
  · exact matchesPath_append (keptSuffix x) hlt
  · -- A context of the same length is the path itself, and only the root is found.
    have hu : MatchesPath (u ++ keptSuffix x) c ∨ MatchesPath u c → c.context = u := by
      rintro (h | h)
      · exact (List.prefix_of_prefix_length_le h.1 (List.prefix_append u _) heq.le).eq_of_length heq
      · exact h.1.eq_of_length heq
    have hone : c.context = u → c.context.length = 1 := by
      intro h
      have hle := hc.1 h
      have hpos : c.context.length ≠ 0 := fun h0 => hne (List.eq_nil_of_length_eq_zero h0)
      omega
    constructor
    · intro h
      have h' := hu (Or.inl h)
      exact ⟨h' ▸ List.prefix_refl u, Or.inr (Or.inr (hone h'))⟩
    · intro h
      have h' := hu (Or.inr h)
      exact ⟨h' ▸ List.prefix_append u _, Or.inr (Or.inr (hone h'))⟩
  · exact iff_of_false (hc.2 hgt) fun h => absurd h.length_le (by omega)

theorem distracts_disjoint {t t' : Text} (hroute : route ≠ []) (ht : cutUri t.str = u)
    (ht' : cutUri t'.str = u ++ keptSuffix x) (hx : KeepsParameters x) {c₀ : Contextinfo}
    (hc₀ : c₀ ∈ passing useAlias s r balancer) (hdis : Distracts u x c₀) :
    ¬ (Serves useAlias s conf (r.asking t) balancer (some route) c ∧
      Serves useAlias s conf (r.asking t') balancer (some route) c) := by
  rw [serves_asking hroute ht, serves_asking hroute ht']
  rintro ⟨⟨⟨-, -, hmatch⟩, hlong, -⟩, ⟨⟨-, -, hmatch'⟩, hlong', -⟩⟩
  obtain ⟨hmem, hcons⟩ := mem_passing.mp hc₀
  have hle := hmatch.length_le
  rcases hdis with ⟨hcalled, htwo⟩ | ⟨hlonger, hfits⟩
  · -- The context that is called `u` is longest for `u` and does not match the other path.
    have hge := hlong c₀ hmem (by rw [hcalled]; intro h; rw [h] at htwo; cases htwo) hcons
      ⟨hcalled ▸ List.prefix_refl u, Or.inl (by rw [hcalled, List.drop_length])⟩
    have heq : c.context.length = u.length := by
      rw [hcalled] at hge
      omega
    have hhead := keptSuffix_head hx
    obtain ⟨-, hend⟩ := hmatch'
    rw [heq, List.drop_left] at hend
    rcases hend with hnil | hslash | hone
    · rw [hnil] at hhead
      cases hhead
    · rw [hslash] at hhead
      exact absurd hhead (by decide)
    · omega
  · have hge := hlong' c₀ hmem (by intro h; rw [h] at hlonger; cases hlonger) hcons hfits
    omega

end Fits

/-- The parameters do not change the contexts that are found if and only if the suffix has no parameters in front of
a question mark, or no context tells the two paths apart, or neither path has an open context. -/
theorem suffix_ignored_iff (useAlias : Bool) (s : Snapshot) (conf : List ProxyBalancer) (r : Request)
    (balancer : Option ProxyBalancer) (route u x : Str) (uri uri' : Text) (huri : uri.str = u) (huri' : uri'.str = u ++ x)
    (hquery : ch '?' ∉ u) (hparam : ch ';' ∉ u) (hx : x = [] ∨ x.head? = some (ch ';') ∨ x.head? = some (ch '?'))
    (hroute : route ≠ []) (hnote : r.notes.proxyContext = none) :
    (findNodeContextHost useAlias s conf (r.asking uri') balancer (some route)).2 =
        (findNodeContextHost useAlias s conf (r.asking uri) balancer (some route)).2 ↔
      IgnoresSuffix useAlias s r balancer u x := by
  have hcut : cutUri uri.str = u := by
    rw [huri, cutUri_plain hquery hparam]
  have hcut' : cutUri uri'.str = if KeepsParameters x then u ++ keptSuffix x else u := by
    rw [huri', cutUri_suffix hquery hparam hx]
  have hfound : ∀ t : Text, (findNodeContextHost useAlias s conf (r.asking t) balancer (some route)).2 =
      searchNodes useAlias s conf (r.asking t) balancer (some route) := by
    intro t
    unfold findNodeContextHost
    have hnote' : (r.asking t).notes.proxyContext = none := hnote
    rw [hnote']
    simp only
    cases searchNodes useAlias s conf (r.asking t) balancer (some route) <;> rfl
  rw [hfound, hfound, searchNodes_eq_iff, IgnoresSuffix]
  by_cases hkeeps : KeepsParameters x
  · rw [if_pos hkeeps] at hcut'
    constructor
    · intro hsame
      refine Or.inr ?_
      by_cases hdis : ∃ c₀ ∈ passing useAlias s r balancer, Distracts u x c₀
      · obtain ⟨c₀, hc₀, hdis⟩ := hdis
        refine Or.inr ⟨(shut_iff conf hroute hcut).mpr fun c hc hserves => ?_,
          (shut_iff conf hroute hcut').mpr fun c hc hserves => ?_⟩
        · exact distracts_disjoint hroute hcut hcut' hkeeps hc₀ hdis ⟨hserves, (hsame c hc).mpr hserves⟩
        · exact distracts_disjoint hroute hcut hcut' hkeeps hc₀ hdis ⟨(hsame c hc).mp hserves, hserves⟩
      · exact Or.inl fun c hc hd => hdis ⟨c, hc, hd⟩
    · intro hignores c hc
      rcases hignores.resolve_left (not_not_intro hkeeps) with hnone | ⟨hshut, hshut'⟩
      · -- The same contexts match both paths.
        have hiff : ∀ c ∈ s.contexts, c.context ≠ [] → considered useAlias s r balancer c = true →
            (MatchesPath (u ++ keptSuffix x) c ↔ MatchesPath u c) := fun c hc hne hcons =>
          matchesPath_iff (hnone c (mem_passing.mpr ⟨hc, hcons⟩)) hne
        rw [serves_asking hroute hcut, serves_asking hroute hcut']
        refine and_congr (and_congr_right fun hne => and_congr_right fun hcons => hiff c hc hne hcons)
          (and_congr_left' (forall_congr' fun c' => forall_congr' fun hc' => forall_congr' fun hne =>
            forall_congr' fun hcons => ?_))
        rw [hiff c' hc' hne hcons]
      · exact iff_of_false ((shut_iff conf hroute hcut').mp hshut' c hc)
          ((shut_iff conf hroute hcut).mp hshut c hc)
  · rw [if_neg hkeeps] at hcut'
    refine iff_of_true (fun c _ => ?_) (Or.inl hkeeps)
    rw [serves_asking hroute hcut, serves_asking hroute hcut']

/-! ## A question mark behind a parameter -/

section Example

def appContext : Snapshot where
  vhosts := []
  contexts := [⟨0, ascii "/app", 1, 0, .enabled, 0, 0⟩]
  nodes := []
  nodup := by decide

def appRequest (uri : String) : Request where
  uri := Text.ofStr (ascii uri)
  unparsedUri := Text.ofStr (ascii uri)
  filename := none
  cookie := none
  serverName := ascii "localhost"
  notes := Notes.empty

/-- Without a question mark the parameter is cut. -/
theorem parameter_ignored :
    (findNodeContextHost false appContext [] ((appRequest "/app").asking (Text.ofStr (ascii "/app;a"))) none
        (some (ascii "r0"))).2 =
      (findNodeContextHost false appContext [] ((appRequest "/app").asking (Text.ofStr (ascii "/app"))) none
        (some (ascii "r0"))).2 :=
  (suffix_ignored_iff false appContext [] (appRequest "/app") none (ascii "r0") (ascii "/app") (ascii ";a")
    (Text.ofStr (ascii "/app")) (Text.ofStr (ascii "/app;a")) (by decide) (by decide) (by decide) (by decide) (by decide)
    (by decide) rfl).mpr (Or.inl (by decide))

/-- With one, the context is not found. -/
theorem parameter_not_ignored :
    (ch '?' ∉ ascii "/app" ∧ ch ';' ∉ ascii "/app" ∧ (ascii ";a?b").head? = some (ch ';')) ∧
    (findNodeContextHost false appContext [] ((appRequest "/app").asking (Text.ofStr (ascii "/app;a?b"))) none
        (some (ascii "r0"))).2 = none ∧
    (findNodeContextHost false appContext [] ((appRequest "/app").asking (Text.ofStr (ascii "/app"))) none
        (some (ascii "r0"))).2 = some [⟨0, 0⟩] := by
  decide +kernel

end Example

end ModCluster
