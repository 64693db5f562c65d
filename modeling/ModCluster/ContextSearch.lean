import ModCluster.Lib.ArrayLoops
import ModCluster.RoutingSpec

/-!
# The loops of the context search

`find_node_context_host` works on arrays with one field for each context: whether it
takes part, how long its match is and which status it has. The loops find what the
search of `Routing` finds, which is the longest match.
-/

open CString Slotmem ArrayLoops

namespace ModCluster

/-! ## find_node_context_host, loop by loop -/

/-- `contextsok`: the contexts that a vhost with the name of the server leads to. -/
def loopContextsok (hostname : Str) (vhosts : List Hostinfo) (contexts : List Contextinfo) : List Bool :=
  vhosts.foldl (fun contextsok v =>
      if v.host == hostname then
        setWhere (fun c => c.vhost == v.vhost && c.node == v.node) (fun _ => true) contextsok contexts.zipIdx
      else contextsok)
    (List.replicate contexts.length false)

/-- `contexts`: the index of a context that takes part, else -1. -/
def loopContexts (useAlias : Bool) (hostname : Str) (vhosts : List Hostinfo) (contexts : List Contextinfo) : List Int :=
  let all := (List.range contexts.length).map Int.ofNat
  if useAlias then
    let contextsok := loopContextsok hostname vhosts contexts
    contexts.zipIdx.foldl (fun marks x => if !contextsok.getD x.2 false then marks.set x.2 (-1) else marks) all
  else all

structure Lengths where
  length : List Nat
  status : List ContextStatus
  max : Nat
  hasContexts : Bool

/-- One turn of the loop that compares the paths. -/
def lengthsStep (balancer : Option ProxyBalancer) (nodes : List NodeEntry) (uri : Str) (marks : List Int) (st : Lengths)
    (x : Contextinfo × Nat) : Lengths :=
  if marks.getD x.2 (-1) = -1 then st
  else if !balancerOk balancer nodes x.1 then st
  else if pathMatches uri x.1.context then
    { length := st.length.set x.2 x.1.context.length
      status := st.status.set x.2 x.1.status
      max := if x.1.context.length > st.max then x.1.context.length else st.max
      hasContexts := true }
  else { length := st.length, status := st.status, max := st.max, hasContexts := true }

/-- One turn of the loop that takes the best contexts. -/
def bestStep (conf : List ProxyBalancer) (s : Snapshot) (r : Request) (route : Option Str) (lengths : Lengths)
    (st : List NodeContext × Nat) (x : Contextinfo × Nat) : List NodeContext × Nat :=
  if lengths.length.getD x.2 0 = lengths.max then
    let ok := match lengths.status.getD x.2 .unset with
      | .enabled => true
      | .disabled => hassessionByname conf s.nodes r x.1.node route
      | _ => false
    if ok then (st.1.set st.2 { node := x.1.node, context := x.1.id }, st.2 + 1) else st
  else st

/-- `status` and `best` are not cleared when they are allocated: `junkStatus` and `junk` are
what the memory holds. The last value tells if `has_contexts` was set. -/
def findNodeContextHostLoops (useAlias : Bool) (s : Snapshot) (conf : List ProxyBalancer) (r : Request)
    (balancer : Option ProxyBalancer) (route : Option Str) (junkStatus : Nat → ContextStatus) (junk : NodeContext) :
    Request × Option (List NodeContext) × Bool :=
  match r.notes.proxyContext with
  | some best => (r, some best, false)
  | none =>
    let uri := cutUri r.uri.str
    if s.contexts.length = 0 then (r, none, false)
    else
      let marks := loopContexts useAlias r.serverName s.vhosts s.contexts
      let lengths := s.contexts.zipIdx.foldl (lengthsStep balancer s.nodes uri marks)
        ⟨List.replicate s.contexts.length 0, (List.range s.contexts.length).map junkStatus, 0, false⟩
      if lengths.max = 0 then (r, none, lengths.hasContexts)
      else
        let nbest := s.contexts.zipIdx.foldl
          (fun nbest x => if lengths.length.getD x.2 0 = lengths.max then nbest + 1 else nbest) 1
        let best := s.contexts.zipIdx.foldl (bestStep conf s r route lengths) (List.replicate nbest junk, 0)
        if best.2 = 0 then (r, none, lengths.hasContexts)
        else
          let ended := best.1.modify best.2 fun e => { e with node := -1 }
          (r.setProxyContext (some ended), some ended, lengths.hasContexts)

/-! ## What the loops compute -/

section Loops

variable {useAlias : Bool} {s : Snapshot} {conf : List ProxyBalancer} {r : Request}
  {balancer : Option ProxyBalancer} {route : Option Str}

theorem loopContextsok_eq (hostname : Str) (vhosts : List Hostinfo) (contexts : List Contextinfo) :
    loopContextsok hostname vhosts contexts =
      contexts.map fun c => vhosts.any fun v => v.host == hostname && c.vhost == v.vhost && c.node == v.node := by
  have hfold : ∀ f : Contextinfo → Bool,
      vhosts.foldl (fun contextsok v =>
        if v.host == hostname then
          setWhere (fun c => c.vhost == v.vhost && c.node == v.node) (fun _ => true) contextsok contexts.zipIdx
        else contextsok) (contexts.map f) =
      contexts.map fun c => f c || vhosts.any fun v => v.host == hostname && c.vhost == v.vhost && c.node == v.node := by
    induction vhosts with
    | nil =>
      intro f
      simp
    | cons v vhosts ih =>
      intro f
      rw [List.foldl_cons]
      have hstep : (if v.host == hostname then
          setWhere (fun c => c.vhost == v.vhost && c.node == v.node) (fun _ => true) (contexts.map f) contexts.zipIdx
          else contexts.map f) =
          contexts.map fun c => f c || (v.host == hostname && c.vhost == v.vhost && c.node == v.node) := by
        cases hname : v.host == hostname with
        | false => simp
        | true =>
          rw [if_pos rfl, setWhere_eq _ _ _ _ (List.length_map f), zipWith_map_self]
          refine List.map_congr_left fun c _ => ?_
          rw [Bool.true_and]
          cases c.vhost == v.vhost && c.node == v.node
          · rw [Bool.or_false]
            rfl
          · rw [Bool.or_true]
            rfl
      rw [hstep, ih]
      refine List.map_congr_left fun c _ => ?_
      rw [List.any_cons, Bool.or_assoc]
  have hstart : List.replicate contexts.length false = contexts.map fun _ => false := by
    rw [List.map_const']
  unfold loopContextsok
  rw [hstart, hfold]
  refine List.map_congr_left fun c _ => ?_
  rw [Bool.false_or]

theorem loopContexts_eq (hostname : Str) (vhosts : List Hostinfo) (contexts : List Contextinfo)
    {x : Contextinfo × Nat} (hx : x ∈ contexts.zipIdx) :
    (loopContexts useAlias hostname vhosts contexts).getD x.2 (-1) = -1 ↔ hostOk useAlias hostname vhosts x.1 = false := by
  have hall : ((List.range contexts.length).map Int.ofNat).getD x.2 (-1) = x.2 := by
    rw [List.mem_zipIdx_iff_getElem?] at hx
    have hlt := (List.getElem?_eq_some_iff.mp hx).1
    rw [List.getD_eq_getElem?_getD, List.getElem?_map, List.getElem?_range hlt]
    rfl
  have hne : (x.2 : Int) ≠ -1 := by omega
  unfold loopContexts hostOk
  cases useAlias with
  | false =>
    rw [if_neg Bool.false_ne_true, hall]
    simp [hne]
  | true =>
    rw [if_pos rfl]
    have hmarks : contexts.zipIdx.foldl (fun marks x =>
          if !(loopContextsok hostname vhosts contexts).getD x.2 false then marks.set x.2 (-1) else marks)
          ((List.range contexts.length).map Int.ofNat) =
        setWhere (fun c => !vhosts.any fun v => v.host == hostname && c.vhost == v.vhost && c.node == v.node)
          (fun _ => -1) ((List.range contexts.length).map Int.ofNat) contexts.zipIdx := by
      unfold setWhere
      apply List.foldl_ext
      intro marks y hy
      rw [loopContextsok_eq, getD_map _ _ hy]
    simp only
    rw [hmarks, setWhere_eq _ _ _ _ (by simp), getD_zipWith _ _ (by simp) hx, hall]
    cases vhosts.any fun v => v.host == hostname && x.1.vhost == v.vhost && x.1.node == v.node <;> simp [hne]

theorem lengthsStep_eq (uri : Str) {x : Contextinfo × Nat} (hx : x ∈ s.contexts.zipIdx) (st : Lengths) :
    lengthsStep balancer s.nodes uri (loopContexts useAlias r.serverName s.vhosts s.contexts) st x =
      { length := if considered useAlias s r balancer x.1 && pathMatches uri x.1.context then
          st.length.set x.2 x.1.context.length else st.length
        status := if considered useAlias s r balancer x.1 && pathMatches uri x.1.context then
          st.status.set x.2 x.1.status else st.status
        max := max st.max (if considered useAlias s r balancer x.1 && pathMatches uri x.1.context then
          x.1.context.length else 0)
        hasContexts := st.hasContexts || considered useAlias s r balancer x.1 } := by
  unfold lengthsStep considered
  cases hhost : hostOk useAlias r.serverName s.vhosts x.1 with
  | false =>
    rw [if_pos ((loopContexts_eq r.serverName s.vhosts s.contexts hx).mpr hhost)]
    simp
  | true =>
    have hmark : (loopContexts useAlias r.serverName s.vhosts s.contexts).getD x.2 (-1) ≠ -1 := by
      rw [Ne, loopContexts_eq r.serverName s.vhosts s.contexts hx, hhost]
      exact Bool.noConfusion
    rw [if_neg hmark]
    cases balancerOk balancer s.nodes x.1 with
    | false => simp
    | true =>
      cases pathMatches uri x.1.context with
      | false => simp
      | true =>
        have hmax : (if x.1.context.length > st.max then x.1.context.length else st.max) =
            max st.max x.1.context.length := by
          split <;> omega
        simp [hmax]

theorem foldl_max (l : List (Contextinfo × Nat)) (f : Contextinfo → Nat) (n : Nat) :
    l.foldl (fun n x => max n (f x.1)) n = max n (maxLength (l.map fun x => f x.1)) := by
  induction l generalizing n with
  | nil => exact (Nat.max_zero n).symm
  | cons x l ih =>
    rw [List.foldl_cons, ih, List.map_cons, maxLength]
    omega

theorem foldl_or (l : List (Contextinfo × Nat)) (f : Contextinfo → Bool) (b : Bool) :
    l.foldl (fun b x => b || f x.1) b = (b || l.any fun x => f x.1) := by
  induction l generalizing b with
  | nil => exact (Bool.or_false b).symm
  | cons x l ih => rw [List.foldl_cons, ih, List.any_cons, Bool.or_assoc]

theorem map_fst_zipIdx {α β : Type} (l : List α) (f : α → β) : (l.zipIdx.map fun x => f x.1) = l.map f := by
  have h := congrArg (List.map f) (List.zipIdx_map_fst 0 l)
  rw [List.map_map] at h
  exact h

theorem any_fst_zipIdx {α : Type} (l : List α) (p : α → Bool) : (l.zipIdx.any fun x => p x.1) = l.any p := by
  have h := congrArg (List.any · p) (List.zipIdx_map_fst 0 l)
  simp only [List.any_map] at h
  exact h

theorem foldl_lengths (l : List (Contextinfo × Nat)) (p q : Contextinfo → Bool) (st : Lengths) :
    l.foldl (fun st x =>
        { length := if p x.1 then st.length.set x.2 x.1.context.length else st.length
          status := if p x.1 then st.status.set x.2 x.1.status else st.status
          max := max st.max (if p x.1 then x.1.context.length else 0)
          hasContexts := st.hasContexts || q x.1 }) st =
      { length := setWhere p (fun c => c.context.length) st.length l
        status := setWhere p (fun c => c.status) st.status l
        max := l.foldl (fun n x => max n (if p x.1 then x.1.context.length else 0)) st.max
        hasContexts := l.foldl (fun b x => b || q x.1) st.hasContexts } := by
  unfold setWhere
  induction l generalizing st with
  | nil => rfl
  | cons x l ih =>
    rw [List.foldl_cons, ih]
    rfl

theorem lengths_eq (junkStatus : List ContextStatus) (hjunk : junkStatus.length = s.contexts.length) :
    s.contexts.zipIdx.foldl
        (lengthsStep balancer s.nodes (cutUri r.uri.str) (loopContexts useAlias r.serverName s.vhosts s.contexts))
        ⟨List.replicate s.contexts.length 0, junkStatus, 0, false⟩ =
      { length := s.contexts.map (matchLength useAlias s r balancer)
        status := List.zipWith (fun c a => if considered useAlias s r balancer c && pathMatches (cutUri r.uri.str) c.context
          then c.status else a) s.contexts junkStatus
        max := maxLength (s.contexts.map (matchLength useAlias s r balancer))
        hasContexts := s.contexts.any (considered useAlias s r balancer) } := by
  rw [List.foldl_ext _ _ _ fun st x hx => lengthsStep_eq (cutUri r.uri.str) hx st,
    foldl_lengths s.contexts.zipIdx
      (fun c => considered useAlias s r balancer c && pathMatches (cutUri r.uri.str) c.context)
      (considered useAlias s r balancer), Lengths.mk.injEq]
  refine ⟨?_, setWhere_eq _ _ _ _ hjunk, ?_, ?_⟩
  · have hzero : List.replicate s.contexts.length 0 = s.contexts.map fun _ => 0 := by
      rw [List.map_const']
    rw [setWhere_eq _ _ _ _ (List.length_replicate ..), hzero, zipWith_map_self]
    rfl
  · refine (foldl_max s.contexts.zipIdx (matchLength useAlias s r balancer) 0).trans ?_
    rw [Nat.zero_max, map_fst_zipIdx]
  · refine (foldl_or s.contexts.zipIdx (considered useAlias s r balancer) false).trans ?_
    rw [Bool.false_or, any_fst_zipIdx]

theorem foldl_zipIdx {α β : Type} (l : List α) (f : β → α → β) (b : β) :
    l.zipIdx.foldl (fun b x => f b x.1) b = l.foldl f b := by
  rw [← List.foldl_map (f := Prod.fst), List.zipIdx_map_fst]

theorem foldl_count {α : Type} (l : List α) (p : α → Bool) (n : Nat) :
    l.foldl (fun n c => if p c then n + 1 else n) n = n + (l.filter p).length := by
  induction l generalizing n with
  | nil => rfl
  | cons c l ih =>
    rw [List.foldl_cons, ih]
    cases hp : p c with
    | false => rw [List.filter_cons_of_neg (by rw [hp]; exact Bool.false_ne_true), if_neg Bool.false_ne_true]
    | true =>
      rw [List.filter_cons_of_pos hp, List.length_cons, if_pos rfl]
      omega

theorem bestStep_eq (junkStatus : List ContextStatus) (hjunk : junkStatus.length = s.contexts.length) {max : Nat}
    (hmax : max ≠ 0) (hasContexts : Bool) {x : Contextinfo × Nat} (hx : x ∈ s.contexts.zipIdx)
    (st : List NodeContext × Nat) :
    bestStep conf s r route
        { length := s.contexts.map (matchLength useAlias s r balancer)
          status := List.zipWith (fun c a => if considered useAlias s r balancer c &&
            pathMatches (cutUri r.uri.str) c.context then c.status else a) s.contexts junkStatus
          max := max
          hasContexts := hasContexts } st x =
      if matchLength useAlias s r balancer x.1 == max && statusOk conf s r route x.1 then
        (st.1.set st.2 (entryOf x.1), st.2 + 1) else st := by
  unfold bestStep
  simp only
  rw [getD_map _ _ hx]
  by_cases hlen : matchLength useAlias s r balancer x.1 = max
  · have hmatch : (considered useAlias s r balancer x.1 && pathMatches (cutUri r.uri.str) x.1.context) = true := by
      have hm := matches_of_matchLength (by rw [hlen]; exact hmax)
      rw [hm.2.1, hm.2.2, Bool.and_true]
    rw [if_pos hlen, getD_zipWith _ _ hjunk hx, if_pos hmatch, beq_iff_eq.mpr hlen, Bool.true_and]
    rfl
  · rw [if_neg hlen, beq_eq_false_iff_ne.mpr hlen, Bool.false_and, if_neg Bool.false_ne_true]

/-- The contexts that the loop over the best ones takes. -/
def bestContexts (useAlias : Bool) (s : Snapshot) (conf : List ProxyBalancer) (r : Request)
    (balancer : Option ProxyBalancer) (route : Option Str) : List Contextinfo :=
  s.contexts.filter fun c =>
    matchLength useAlias s r balancer c == maxLength (s.contexts.map (matchLength useAlias s r balancer)) &&
      statusOk conf s r route c

theorem findNodeContextHostLoops_eq (junkStatus : Nat → ContextStatus) (junk : NodeContext)
    (hnote : r.notes.proxyContext = none) :
    ∃ rest, findNodeContextHostLoops useAlias s conf r balancer route junkStatus junk =
      (if maxLength (s.contexts.map (matchLength useAlias s r balancer)) = 0 ∨
          bestContexts useAlias s conf r balancer route = [] then
        (r, none, s.contexts.any (considered useAlias s r balancer))
      else
        let best := (bestContexts useAlias s conf r balancer route).map entryOf ++
          { node := -1, context := junk.context } :: rest
        (r.setProxyContext (some best), some best, s.contexts.any (considered useAlias s r balancer))) := by
  unfold findNodeContextHostLoops
  rw [hnote]
  simp only
  by_cases hempty : s.contexts.length = 0
  · have hnil := List.eq_nil_of_length_eq_zero hempty
    refine ⟨[], ?_⟩
    rw [if_pos hempty, if_pos, hnil]
    · rfl
    · rw [hnil]
      exact Or.inl rfl
  rw [if_neg hempty, lengths_eq _ (by simp)]
  simp only
  generalize hmax : maxLength (s.contexts.map (matchLength useAlias s r balancer)) = max
  by_cases hzero : max = 0
  · exact ⟨[], by rw [if_pos hzero, if_pos (Or.inl hzero)]⟩
  rw [if_neg hzero]
  have hcount : s.contexts.zipIdx.foldl (fun nbest x =>
        if (s.contexts.map (matchLength useAlias s r balancer)).getD x.2 0 = max then nbest + 1 else nbest) 1 =
      1 + (s.contexts.filter fun c => matchLength useAlias s r balancer c == max).length := by
    rw [← foldl_count]
    refine Eq.trans ?_ (foldl_zipIdx s.contexts
      (fun (n : Nat) c => if matchLength useAlias s r balancer c == max then n + 1 else n) 1)
    apply List.foldl_ext
    intro n x hx
    rw [getD_map _ _ hx]
    simp only [beq_iff_eq]
  have hbest : bestContexts useAlias s conf r balancer route =
      s.contexts.filter fun c => matchLength useAlias s r balancer c == max && statusOk conf s r route c := by
    rw [bestContexts, hmax]
  have hle : (bestContexts useAlias s conf r balancer route).length ≤
      (s.contexts.filter fun c => matchLength useAlias s r balancer c == max).length := by
    rw [hbest, List.filter_congr fun c _ => Bool.and_comm .., ← List.filter_filter]
    exact List.length_filter_le _ _
  -- The array has room for all contexts of the greatest length and the end.
  have hfill : ∀ hasContexts, s.contexts.zipIdx.foldl (bestStep conf s r route
        { length := s.contexts.map (matchLength useAlias s r balancer)
          status := List.zipWith (fun c a => if considered useAlias s r balancer c &&
            pathMatches (cutUri r.uri.str) c.context then c.status else a) s.contexts
              ((List.range s.contexts.length).map junkStatus)
          max := max
          hasContexts := hasContexts })
        (List.replicate (1 + (s.contexts.filter fun c => matchLength useAlias s r balancer c == max).length) junk, 0) =
      ((bestContexts useAlias s conf r balancer route).map entryOf ++
        List.replicate (1 + (s.contexts.filter fun c => matchLength useAlias s r balancer c == max).length -
          (bestContexts useAlias s conf r balancer route).length) junk,
        (bestContexts useAlias s conf r balancer route).length) := by
    intro hasContexts
    rw [List.foldl_ext _ _ _ fun st x hx => bestStep_eq _ (by simp) hzero _ hx st]
    refine (foldl_zipIdx s.contexts (fun (st : List NodeContext × Nat) c =>
      if matchLength useAlias s r balancer c == max && statusOk conf s r route c then
        (st.1.set st.2 (entryOf c), st.2 + 1) else st) _).trans ?_
    refine (fillWhere_eq (fun c => matchLength useAlias s r balancer c == max && statusOk conf s r route c) entryOf
      s.contexts _ ?_).trans ?_
    · rw [← hbest, List.length_replicate]
      omega
    · rw [← hbest, List.drop_replicate]
  rw [hcount, hfill]
  simp only
  by_cases hnil : bestContexts useAlias s conf r balancer route = []
  · refine ⟨[], ?_⟩
    rw [if_pos (by rw [hnil]; rfl), if_pos (Or.inr hnil)]
  · have hroom : 1 + (s.contexts.filter fun c => matchLength useAlias s r balancer c == max).length -
        (bestContexts useAlias s conf r balancer route).length =
        (s.contexts.filter fun c => matchLength useAlias s r balancer c == max).length -
          (bestContexts useAlias s conf r balancer route).length + 1 := by
      omega
    refine ⟨List.replicate ((s.contexts.filter fun c => matchLength useAlias s r balancer c == max).length -
      (bestContexts useAlias s conf r balancer route).length) junk, ?_⟩
    rw [if_neg (fun h => hnil (List.eq_nil_of_length_eq_zero h)),
      if_neg (fun h => h.elim hzero hnil), hroom, List.replicate_succ]
    have hend : ∀ (l : List NodeContext) (rest : List NodeContext), (l ++ junk :: rest).modify l.length
        (fun e => { e with node := -1 }) = l ++ { node := -1, context := junk.context } :: rest := by
      intro l rest
      rw [List.modify_eq_take_drop, List.take_left, List.drop_left]
      rfl
    have hlen : (bestContexts useAlias s conf r balancer route).length =
        ((bestContexts useAlias s conf r balancer route).map entryOf).length := (List.length_map _).symm
    rw [hlen, hend]

/-! ## The longest match -/

/-- The alias filter. -/
def PassesAlias (useAlias : Bool) (s : Snapshot) (r : Request) (c : Contextinfo) : Prop :=
  useAlias = false ∨ ∃ v ∈ s.vhosts, v.host = r.serverName ∧ v.vhost = c.vhost ∧ v.node = c.node

/-- The balancer filter. -/
def PassesBalancer (s : Snapshot) (balancer : Option ProxyBalancer) (c : Contextinfo) : Prop :=
  ∀ b ∈ balancer, ∃ node ∈ tableGetNode s.nodes c.node, b.isFor node.mess.balancer

/-- The path of the context is a prefix of `u` that ends with a segment of it. -/
def MatchesPath (u : Str) (c : Contextinfo) : Prop :=
  c.context <+: u ∧
    (u.drop c.context.length = [] ∨ (u.drop c.context.length).head? = some (ch '/') ∨ c.context.length = 1)

instance (c : Contextinfo) : Decidable (PassesAlias useAlias s r c) := inferInstanceAs (Decidable (_ ∨ _))

instance (c : Contextinfo) : Decidable (PassesBalancer s balancer c) :=
  inferInstanceAs (Decidable (∀ b ∈ balancer, _))

instance (u : Str) (c : Contextinfo) : Decidable (MatchesPath u c) := inferInstanceAs (Decidable (_ ∧ _))

/-- The contexts that take part in the search. -/
def passing (useAlias : Bool) (s : Snapshot) (r : Request) (balancer : Option ProxyBalancer) : List Contextinfo :=
  s.contexts.filter fun c => PassesAlias useAlias s r c ∧ PassesBalancer s balancer c

theorem considered_iff (c : Contextinfo) :
    considered useAlias s r balancer c = true ↔ PassesAlias useAlias s r c ∧ PassesBalancer s balancer c := by
  have hhost : hostOk useAlias r.serverName s.vhosts c = true ↔ PassesAlias useAlias s r c := by
    unfold hostOk PassesAlias
    simp only [Bool.or_eq_true, Bool.not_eq_true', List.any_eq_true, Bool.and_eq_true, beq_iff_eq, and_assoc,
      eq_comm (a := c.vhost), eq_comm (a := c.node)]
  have hbalancer : balancerOk balancer s.nodes c = true ↔ PassesBalancer s balancer c := by
    unfold balancerOk PassesBalancer
    cases balancer with
    | none => simp
    | some b => cases tableGetNode s.nodes c.node <;> simp
  rw [considered, Bool.and_eq_true, hhost, hbalancer]

theorem pathMatches_iff (u : Str) (c : Contextinfo) : pathMatches u c.context = true ↔ MatchesPath u c := by
  unfold pathMatches MatchesPath
  rw [Bool.and_eq_true, List.isPrefixOf_iff_prefix]
  refine and_congr_right fun hstarts => ?_
  obtain ⟨rest, rfl⟩ := hstarts
  rw [List.drop_left]
  cases rest with
  | nil => simp [byteAt]
  | cons b rest => simp [byteAt]

theorem passing_eq : passing useAlias s r balancer = s.contexts.filter (considered useAlias s r balancer) := by
  unfold passing
  apply List.filter_congr
  intro c _
  rw [Bool.eq_iff_iff, decide_eq_true_iff, considered_iff]

/-- The contexts of `passing` that match the path. -/
def matching (useAlias : Bool) (s : Snapshot) (r : Request) (balancer : Option ProxyBalancer) : List Contextinfo :=
  (passing useAlias s r balancer).filter fun c => MatchesPath (cutUri r.uri.str) c

theorem matching_eq : matching useAlias s r balancer =
    s.contexts.filter fun c => considered useAlias s r balancer c && pathMatches (cutUri r.uri.str) c.context := by
  unfold matching
  rw [passing_eq, List.filter_filter]
  apply List.filter_congr
  intro c _
  rw [Bool.and_comm, Bool.eq_iff_iff, Bool.and_eq_true, Bool.and_eq_true, decide_eq_true_iff, pathMatches_iff]

theorem maxLength_filter (l : List Contextinfo) (p : Contextinfo → Bool) :
    maxLength (l.map fun c => if p c then c.context.length else 0) =
      maxLength ((l.filter p).map fun c => c.context.length) := by
  induction l with
  | nil => rfl
  | cons c l ih =>
    rw [List.map_cons, maxLength, ih]
    cases hp : p c with
    | false =>
      rw [List.filter_cons_of_neg (by rw [hp]; exact Bool.false_ne_true), if_neg Bool.false_ne_true, Nat.zero_max]
    | true =>
      rw [List.filter_cons_of_pos hp, List.map_cons, maxLength, if_pos rfl]

theorem maxLength_matching : maxLength (s.contexts.map (matchLength useAlias s r balancer)) =
    maxLength ((matching useAlias s r balancer).map fun c => c.context.length) := by
  rw [matching_eq]
  exact maxLength_filter s.contexts fun c =>
    considered useAlias s r balancer c && pathMatches (cutUri r.uri.str) c.context

theorem bestContexts_eq (h : maxLength ((matching useAlias s r balancer).map fun c => c.context.length) ≠ 0) :
    bestContexts useAlias s conf r balancer route = (matching useAlias s r balancer).filter fun c =>
      c.context.length = maxLength ((matching useAlias s r balancer).map fun c => c.context.length) ∧
        statusOk conf s r route c := by
  rw [← maxLength_matching] at h ⊢
  rw [bestContexts, matching_eq, List.filter_filter]
  generalize maxLength (s.contexts.map (matchLength useAlias s r balancer)) = max at h ⊢
  apply List.filter_congr
  intro c _
  unfold matchLength
  cases hmatch : considered useAlias s r balancer c && pathMatches (cutUri r.uri.str) c.context with
  | false =>
    rw [if_neg Bool.false_ne_true, Bool.and_false, beq_eq_false_iff_ne.mpr fun h0 => h h0.symm]
    rfl
  | true =>
    rw [if_pos rfl, Bool.and_true, Bool.eq_iff_iff, Bool.and_eq_true, beq_iff_eq, decide_eq_true_iff]

/-- A context of the greatest length is served if it is running, or if it is disabled and the request has a
session of its node. -/
def IsOpenTo (s : Snapshot) (conf : List ProxyBalancer) (r : Request) (route : Option Str) (c : Contextinfo) : Prop :=
  c.status = .enabled ∨ c.status = .disabled ∧ hassessionByname conf s.nodes r c.node route

instance (c : Contextinfo) : Decidable (IsOpenTo s conf r route c) := inferInstanceAs (Decidable (_ ∨ _))

theorem statusOk_iff (c : Contextinfo) : statusOk conf s r route c = true ↔ IsOpenTo s conf r route c := by
  unfold statusOk IsOpenTo
  cases c.status <;> simp

end Loops

/-- The search returns the open ones of the longest matching contexts, whatever the memory of its arrays holds. -/
theorem contextSearch_longestMatch (useAlias : Bool) (s : Snapshot) (conf : List ProxyBalancer) (r : Request)
    (balancer : Option ProxyBalancer) (route : Option Str) (junkStatus : Nat → ContextStatus) (junk : NodeContext)
    (hnote : r.notes.proxyContext = none) :
    let found := findNodeContextHostLoops useAlias s conf r balancer route junkStatus junk
    let m := maxLength ((matching useAlias s r balancer).map fun c => c.context.length)
    let best := (matching useAlias s r balancer).filter fun c => c.context.length = m ∧ IsOpenTo s conf r route c
    (found.2.1 = none ↔ m = 0 ∨ best = []) ∧
      (∀ entries, found.2.1 = some entries →
        ∃ rest, entries = best.map entryOf ++ { node := -1, context := junk.context } :: rest) ∧
      (found.2.2 = true ↔ passing useAlias s r balancer ≠ []) := by
  intro found m best
  obtain ⟨rest, hfound⟩ : ∃ rest, found = _ := findNodeContextHostLoops_eq junkStatus junk hnote
  rw [maxLength_matching] at hfound
  have hbest : (m = 0 ∨ bestContexts useAlias s conf r balancer route = []) ↔ (m = 0 ∨ best = []) := by
    refine or_congr_right' fun hm => ?_
    rw [bestContexts_eq hm]
    simp only [statusOk_iff]
    rfl
  have hhas : s.contexts.any (considered useAlias s r balancer) = true ↔ passing useAlias s r balancer ≠ [] := by
    rw [passing_eq, Ne, List.filter_eq_nil_iff, List.any_eq_true]
    simp only [not_forall, not_not, exists_prop]
  by_cases hnone : m = 0 ∨ best = []
  · rw [if_pos (hbest.mpr hnone)] at hfound
    rw [hfound]
    exact ⟨iff_of_true rfl hnone, fun entries h => absurd h.symm (Option.some_ne_none entries), hhas⟩
  · rw [if_neg (fun h => hnone (hbest.mp h)), bestContexts_eq fun h => hnone (Or.inl h)] at hfound
    simp only [statusOk_iff] at hfound
    rw [hfound]
    refine ⟨iff_of_false (Option.some_ne_none _) hnone, fun entries h => ⟨rest, ?_⟩, hhas⟩
    exact (Option.some.inj h).symm

/-- The loops find what the search finds. -/
theorem findNodeContextHostLoops_searches (useAlias : Bool) (s : Snapshot) (conf : List ProxyBalancer) (r : Request)
    (balancer : Option ProxyBalancer) (route : Option Str) (junkStatus : Nat → ContextStatus) (junk : NodeContext)
    (hnote : r.notes.proxyContext = none) :
    ∃ rest, (findNodeContextHostLoops useAlias s conf r balancer route junkStatus junk).2.1 =
      (findNodeContextHost useAlias s conf r balancer route).2.map fun best =>
        best ++ { node := -1, context := junk.context } :: rest := by
  obtain ⟨rest, hfound⟩ := @findNodeContextHostLoops_eq useAlias s conf r balancer route junkStatus junk hnote
  refine ⟨rest, ?_⟩
  rw [hfound]
  have hsearch : (findNodeContextHost useAlias s conf r balancer route).2 =
      searchNodes useAlias s conf r balancer route := by
    unfold findNodeContextHost
    rw [hnote]
    simp only
    cases searchNodes useAlias s conf r balancer route <;> rfl
  rw [hsearch]
  unfold searchNodes bestContexts
  simp only
  by_cases hmax : maxLength (s.contexts.map (matchLength useAlias s r balancer)) = 0
  · rw [if_pos (Or.inl hmax), if_pos hmax]
    rfl
  rw [if_neg hmax]
  split
  · rename_i hnone
    rw [if_pos (hnone.resolve_left hmax)]
    rfl
  · rename_i hsome
    rw [if_neg fun h => hsome (Or.inr h)]
    rfl

/-! ## A stopped context hides a running one -/

section Example

/-- The longest context of the path is stopped on the first node and runs on the second. -/
def nestedContexts : Snapshot where
  vhosts := [⟨0, ascii "localhost", 1, 0, 0⟩, ⟨1, ascii "localhost", 1, 1, 1⟩]
  contexts :=
    [⟨0, ascii "/app", 1, 0, .enabled, 0, 0⟩, ⟨1, ascii "/app/admin", 1, 0, .stopped, 0, 1⟩,
      ⟨2, ascii "/app/admin", 1, 1, .enabled, 0, 2⟩]
  nodes := []
  nodup := by decide

def adminRequest : Request where
  uri := Text.ofStr (ascii "/app/admin/index.jsp;jsessionid=x")
  unparsedUri := Text.ofStr (ascii "/app/admin/index.jsp;jsessionid=x")
  filename := none
  cookie := none
  serverName := ascii "localhost"
  notes := Notes.empty

theorem nestedContexts_longestMatch :
    ∃ rest, (findNodeContextHostLoops true nestedContexts [] adminRequest none none (fun _ => .unset) ⟨7, 7⟩).2.1 =
      some ([⟨1, 2⟩] ++ ⟨-1, 7⟩ :: rest) := by
  obtain ⟨hnone, hentries, -⟩ := contextSearch_longestMatch true nestedContexts [] adminRequest none none
    (fun _ => .unset) ⟨7, 7⟩ rfl
  obtain ⟨entries, hfound⟩ := Option.ne_none_iff_exists'.mp fun h => absurd (hnone.mp h) (by decide +kernel)
  obtain ⟨rest, hrest⟩ := hentries entries hfound
  exact ⟨rest, by rw [hfound, hrest]; rfl⟩

end Example

end ModCluster
