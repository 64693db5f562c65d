import ModCluster.PreRequest
import ModCluster.WorkerCounts

/-!
# What the choice of a worker can do

The search for a route only retries workers, and an election only returns workers
that its passes have accepted.
-/

open CString Slotmem Slotmem.Table

namespace ModCluster

/-! ## Areas -/

section Areas

variable {w w' : World} {b b' j k : Nat} {f : WorkerShared → WorkerShared}

theorem Server.worker?_setWorker (sv : Server) (worker : Worker) :
    (sv.setWorker b j worker).worker? b' k =
      if b = b' ∧ j = k then (sv.worker? b' k).map fun _ => worker else sv.worker? b' k := by
  unfold Server.worker? Server.setWorker
  by_cases hb : b = b'
  · subst hb
    simp only [List.getElem?_modify_eq, true_and]
    cases sv.balancers[b]? with
    | none => simp
    | some bal =>
      simp only [Option.map_eq_map, Option.map_some, Option.bind_some, ProxyBalancer.setWorker,
        List.getElem?_set']
      split <;> rfl
  · simp only
    rw [List.getElem?_modify_ne _ _ hb, if_neg fun h => hb h.1]

theorem Worker.area_eq {ts ts' : Tables} {worker worker' : Worker} (hs : worker'.s = worker.s)
    (hpriv : worker'.priv = worker.priv) (hstat : ∀ i, (ts'.nodes.peek i).stat = (ts.nodes.peek i).stat) :
    worker'.area ts' = worker.area ts := by
  unfold Worker.area
  rw [hs, hpriv]
  split
  · exact hstat _
  · rfl

theorem peek_pokeStat (ts : Tables) (i n : Nat) :
    ((pokeStat ts i f).nodes.peek n).stat = (ts.nodes.peek n).stat ∨
      ((pokeStat ts i f).nodes.peek n).stat = f (ts.nodes.peek n).stat := by
  rw [pokeStat, peek_poke_eq]
  split
  · rename_i h
    rw [h.1]
    exact Or.inr rfl
  · exact Or.inl rfl

theorem area_write : (w.write b j f).area b' k = w.area b' k ∨ (w.write b j f).area b' k = f (w.area b' k) := by
  unfold World.write
  cases hw : w.server.worker? b j with
  | none => exact Or.inl rfl
  | some worker =>
    unfold World.area
    simp only
    rw [Server.worker?_setWorker]
    by_cases hsame : b = b' ∧ j = k
    · obtain ⟨rfl, rfl⟩ := hsame
      rw [if_pos ⟨rfl, rfl⟩, hw, Option.map_some]
      unfold Worker.write Worker.area
      cases hs : worker.s with
      | slot i =>
        simp only [hs]
        exact peek_pokeStat w.tables i i
      | priv =>
        simp only [hs]
        exact Or.inr trivial
    · rw [if_neg hsame]
      cases w.server.worker? b' k with
      | none => exact Or.inl rfl
      | some other =>
        unfold Worker.write Worker.area
        cases worker.s with
        | slot i =>
          simp only
          cases other.s with
          | slot n => exact peek_pokeStat w.tables i n
          | priv => exact Or.inl rfl
        | priv => exact Or.inl rfl

theorem area_write_keeps {α : Type} (g : WorkerShared → α) (hf : ∀ s, g (f s) = g s) :
    g ((w.write b j f).area b' k) = g (w.area b' k) := by
  rcases area_write (w := w) (b := b) (j := j) (k := k) (f := f) with h | h
  · rw [h]
  · rw [h, hf]

theorem retried_index {httpd : Httpd} (w : World) (b j b' k : Nat) :
    ((w.write b j (retried httpd)).area b' k).index = (w.area b' k).index :=
  area_write_keeps (w := w) (b := b) (j := j) (k := k) (f := retried httpd) (fun s => s.index)
    fun _ => rfl

/-- Any number of retries. -/
def Retries (httpd : Httpd) : World → World → Prop :=
  Relation.ReflTransGen fun w w' => ∃ b j, w' = w.write b j (retried httpd)

theorem Retries.area_keeps {httpd : Httpd} (h : Retries httpd w w') {α : Type} (g : WorkerShared → α)
    (hg : ∀ s, g (retried httpd s) = g s) : g (w'.area b k) = g (w.area b k) := by
  induction h with
  | refl => rfl
  | tail _ hstep ih =>
    obtain ⟨b', j', rfl⟩ := hstep
    rw [area_write_keeps g hg, ih]

end Areas

/-! ## By route -/

/-- Only the note of the search and the id of the context are written. -/
structure SameRequest (r r' : Request) : Prop where
  uri : r'.uri = r.uri
  unparsedUri : r'.unparsedUri = r.unparsedUri
  filename : r'.filename = r.filename
  cookie : r'.cookie = r.cookie
  serverName : r'.serverName = r.serverName
  sessionRoute : r'.notes.sessionRoute = r.notes.sessionRoute

theorem SameRequest.refl (r : Request) : SameRequest r r := ⟨rfl, rfl, rfl, rfl, rfl, rfl⟩

theorem SameRequest.trans {r r' r'' : Request} (h : SameRequest r r') (h' : SameRequest r' r'') :
    SameRequest r r'' where
  uri := h'.uri.trans h.uri
  unparsedUri := h'.unparsedUri.trans h.unparsedUri
  filename := h'.filename.trans h.filename
  cookie := h'.cookie.trans h.cookie
  serverName := h'.serverName.trans h.serverName
  sessionRoute := h'.sessionRoute.trans h.sessionRoute

section Route

variable {httpd : Httpd} {cfg : Settings} {s : Snapshot} {b : Nat}

theorem checkContext_found {index : Int} {j k : Nat} {h : Handling} (hk : (checkContext cfg s b index j h).2 = .worker k) :
    k = j := by
  unfold checkContext at hk
  split at hk
  · cases hk
  · split at hk
    · exact (Found.worker.inj hk).symm
    · cases hk

theorem checkContext_world {index : Int} {j : Nat} {h : Handling} : (checkContext cfg s b index j h).1.world = h.world := by
  unfold checkContext
  split
  · rfl
  · split <;> rfl

/-- What has to be shown to conclude that the search keeps `I` and returns workers
with `Good`. -/
structure RouteRule (httpd : Httpd) (cfg : Settings) (s : Snapshot) (b : Nat) (I : Handling → Prop)
    (Good : Handling → Nat → Prop) : Prop where
  retry : ∀ h j, I h → I (h.write b j (retried httpd))
  check : ∀ h index j, I h → I (checkContext cfg s b index j h).1
  found : ∀ h j, I h → (checkContext cfg s b (h.world.area b j).index j h).2 = .worker j →
    Good (checkContext cfg s b (h.world.area b j).index j h).1 j
  keepRetry : ∀ h j k, Good h k → Good (h.write b j (retried httpd)) k
  keepCheck : ∀ h index j k, Good h k → Good (checkContext cfg s b index j h).1 k

variable {I : Handling → Prop} {Good : Handling → Nat → Prop} (rule : RouteRule httpd cfg s b I Good)
include rule

theorem takeRedirect_rule {index : Int} {j k : Nat} {h : Handling} (hI : I h) (hgood : Good h k) :
    I (takeRedirect httpd cfg s b index j k h).1 ∧
      ∀ n, (takeRedirect httpd cfg s b index j k h).2 = some (.worker n) →
        Good (takeRedirect httpd cfg s b index j k h).1 n := by
  unfold takeRedirect
  extract_lets h'
  have hI' : I h' := by
    unfold h'
    split
    · exact hI
    · exact rule.retry h j hI
  have hgood' : Good h' k := by
    unfold h'
    split
    · exact hgood
    · exact rule.keepRetry h j k hgood
  split
  · split
    · exact ⟨hI', fun n hn => by cases hn⟩
    · refine ⟨rule.check h' index k hI', fun n hn => ?_⟩
      obtain rfl := checkContext_found (Option.some.inj hn)
      exact rule.keepCheck h' index n n hgood'
  · exact ⟨hI', fun n hn => by cases hn⟩

theorem routeRetry_rule {redirect : Str → Handling → Handling × Found}
    (hredirect : ∀ route h, I h → I (redirect route h).1 ∧
      ∀ k, (redirect route h).2 = .worker k → Good (redirect route h).1 k) {j : Nat} {h : Handling} (hI : I h) :
    I (routeRetry httpd cfg s b redirect (h.world.area b j).index j h).1 ∧
      ∀ n, (routeRetry httpd cfg s b redirect (h.world.area b j).index j h).2 = some (.worker n) →
        Good (routeRetry httpd cfg s b redirect (h.world.area b j).index j h).1 n := by
  unfold routeRetry
  extract_lets h'
  have hI' : I h' := rule.retry h j hI
  have hindex : (h'.world.area b j).index = (h.world.area b j).index :=
    retried_index h.world b j b j
  rw [← hindex]
  split
  · split
    · exact ⟨hI', fun n hn => by cases hn⟩
    · refine ⟨rule.check h' _ j hI', fun n hn => ?_⟩
      have hn' : (checkContext cfg s b (h'.world.area b j).index j h').2 = .worker n := Option.some.inj hn
      obtain rfl := checkContext_found hn'
      exact rule.found h' n hI' hn'
  split
  · exact ⟨hI', fun n hn => by cases hn⟩
  obtain ⟨hIr, hgr⟩ := hredirect (h'.world.area b j).redirect h' hI'
  split
  · rename_i h'' k heq
    rw [heq] at hIr hgr
    exact takeRedirect_rule rule hIr (hgr k rfl)
  · rename_i h'' heq
    rw [heq] at hIr
    exact ⟨hIr, fun n hn => by cases hn⟩
  · rename_i h'' other hworker _ heq
    rw [heq] at hIr
    refine ⟨hIr, fun n hn => ?_⟩
    exact absurd (Option.some.inj hn) (hworker n)

theorem routeStep_rule {redirect : Str → Handling → Handling × Found}
    (hredirect : ∀ route h, I h → I (redirect route h).1 ∧
      ∀ k, (redirect route h).2 = .worker k → Good (redirect route h).1 k)
    (standby : Bool) (route : Str) (j : Nat) {h : Handling} (hI : I h) :
    I (routeStep httpd cfg s b redirect standby route j h).1 ∧
      ∀ n, (routeStep httpd cfg s b redirect standby route j h).2 = some (.worker n) →
        Good (routeStep httpd cfg s b redirect standby route j h).1 n := by
  unfold routeStep
  split
  · exact ⟨hI, fun n hn => by cases hn⟩
  rename_i worker hworker
  have harea : worker.area h.world.tables = h.world.area b j := by rw [World.area, hworker]
  rw [harea]
  split
  · exact ⟨hI, fun n hn => by cases hn⟩
  simp only
  split
  · exact ⟨hI, fun n hn => by cases hn⟩
  split
  · exact ⟨hI, fun n hn => by cases hn⟩
  split
  · split
    · exact ⟨hI, fun n hn => by cases hn⟩
    · refine ⟨rule.check h _ j hI, fun n hn => ?_⟩
      have hn' : (checkContext cfg s b (h.world.area b j).index j h).2 = .worker n := Option.some.inj hn
      obtain rfl := checkContext_found hn'
      exact rule.found h n hI hn'
  · exact routeRetry_rule rule hredirect hI

theorem routePass_rule {redirect : Str → Handling → Handling × Found}
    (hredirect : ∀ route h, I h → I (redirect route h).1 ∧
      ∀ k, (redirect route h).2 = .worker k → Good (redirect route h).1 k)
    (standby : Bool) (route : Str) (js : List Nat) {h : Handling} (hI : I h) :
    I (routePass httpd cfg s b redirect standby route js h).1 ∧
      ∀ n, (routePass httpd cfg s b redirect standby route js h).2 = some (.worker n) →
        Good (routePass httpd cfg s b redirect standby route js h).1 n := by
  induction js generalizing h with
  | nil => exact ⟨hI, fun n hn => by cases hn⟩
  | cons j js ih =>
    have hstep := routeStep_rule rule hredirect standby route j hI
    unfold routePass
    split
    · rename_i h' found heq
      rw [heq] at hstep
      exact hstep
    · rename_i h' heq
      rw [heq] at hstep
      exact ih hstep.1

theorem findRouteWorker_rule (fuel : Nat) {route : Str} {h : Handling} (hI : I h) :
    I (findRouteWorker httpd cfg s b fuel route h).1 ∧
      ∀ n, (findRouteWorker httpd cfg s b fuel route h).2 = .worker n →
        Good (findRouteWorker httpd cfg s b fuel route h).1 n := by
  induction fuel generalizing route h with
  | zero => exact ⟨hI, fun n hn => by cases hn⟩
  | succ fuel ih =>
    have hredirect : ∀ route h, I h → I (findRouteWorker httpd cfg s b fuel route h).1 ∧
        ∀ k, (findRouteWorker httpd cfg s b fuel route h).2 = .worker k →
          Good (findRouteWorker httpd cfg s b fuel route h).1 k := fun route h hI => ih hI
    have hfirst := routePass_rule rule hredirect false route (h.world.workers b) hI
    unfold findRouteWorker
    split
    · rename_i h' found heq
      rw [heq] at hfirst
      exact ⟨hfirst.1, fun n hn => hfirst.2 n (congrArg some hn)⟩
    · rename_i h' heq
      rw [heq] at hfirst
      have hsecond := routePass_rule rule hredirect true route (h'.world.workers b) hfirst.1
      split
      · rename_i h'' found heq'
        rw [heq'] at hsecond
        exact ⟨hsecond.1, fun n hn => hsecond.2 n (congrArg some hn)⟩
      · rename_i h'' heq'
        rw [heq'] at hsecond
        exact ⟨hsecond.1, fun n hn => by cases hn⟩

omit rule in
theorem findRouteWorker_retries (fuel : Nat) (route : Str) (h : Handling) :
    Retries httpd h.world (findRouteWorker httpd cfg s b fuel route h).1.world := by
  have rule : RouteRule httpd cfg s b (fun h' => Retries httpd h.world h'.world) fun _ _ => True := by
    refine ⟨fun h' j hr => ?_, fun h' index j hr => ?_, fun _ _ _ _ => trivial, fun _ _ _ _ => trivial,
      fun _ _ _ _ _ => trivial⟩
    · exact Relation.ReflTransGen.tail hr ⟨b, j, rfl⟩
    · rw [checkContext_world]
      exact hr
  exact (findRouteWorker_rule rule fuel Relation.ReflTransGen.refl).1

end Route

/-! ## By election -/

section Elect

variable {cfg : Settings} {b : Nat} {domain : Option Str} {best : List NodeContext} {w : World}

/-- What a worker has that a pass accepts. -/
structure Accepted (b : Nat) (checkingStandby checkedDomain : Bool) (domain : Option Str) (best : List NodeContext)
    (w : World) (j : Nat) : Prop where
  node : ∃ i, getNode w.tables.nodes (w.area b j).index = some i ∧
    (checkedDomain = false → isnodeDomainOk (w.tables.nodes.peek i) domain = true)
  index : (w.area b j).index ≠ -1
  entry : ∃ e, findEntry (w.area b j).index best = some e

theorem readNodeWorker_eq_some {ts : Tables} {id : Int} {area : WorkerShared} {i : Nat}
    (h : readNodeWorker ts id area = some i) : getNode ts.nodes id = some i := by
  unfold readNodeWorker at h
  split at h
  · cases h
  · rename_i i' hi
    simp only at h
    split at h
    · cases h
    · rw [hi, ← h]

/-- What becomes of the election when worker `j` is asked. -/
inductive Processed (e : Election) (j : Nat) (accepted : Prop) : Election × Bool → Prop
  | skipped : Processed e j accepted (e, false)
  | chosen (h : accepted) (best1 : NodeContext) : Processed e j accepted (e.choose j best1, true)
  | lost (h : accepted) : Processed e j accepted ({ e with mycandidate := none }, true)
  | kept (h : accepted) : Processed e j accepted (e, true)

theorem internalProcessWorker_processed {st cd : Bool} {e : Election} {j : Nat} :
    Processed e j (Accepted b st cd domain best w j) (internalProcessWorker b st cd domain best w e j) := by
  unfold internalProcessWorker
  split
  · exact .skipped
  rename_i worker hworker
  have harea : worker.area w.tables = w.area b j := by rw [World.area, hworker]
  rw [harea]
  split
  · exact .skipped
  simp only
  split
  · exact .skipped
  rename_i hindex
  split
  · exact .skipped
  split
  · exact .skipped
  split
  · exact .skipped
  rename_i best1 hbest
  split
  · exact .skipped
  rename_i i hi
  split
  · exact .skipped
  split
  · exact .skipped
  rename_i hdomain
  have hacc : Accepted b st cd domain best w j := by
    refine ⟨⟨i, readNodeWorker_eq_some hi, fun hcd => ?_⟩, fun h => hindex (Or.inl h), best1, hbest⟩
    rw [hcd] at hdomain
    simpa using hdomain
  split
  · exact .chosen hacc best1
  split
  · exact .chosen hacc best1
  · unfold compareCandidate
    split
    · exact .lost hacc
    split
    · exact .chosen hacc best1
    · exact .kept hacc

/-- The candidate and the workers of an election are all `Good`. -/
structure Election.All (Good : Nat → Prop) (e : Election) : Prop where
  candidate : ∀ j, e.mycandidate = some j → Good j
  workers : ∀ j ∈ e.workers, Good j

variable {Good : Nat → Prop}

theorem Processed.all {e : Election} {j : Nat} {q : Election × Bool} (h : Processed e j (Good j) q) (he : e.All Good) :
    q.1.All Good ∧ (q.2 = true → Good j) := by
  cases h with
  | skipped => exact ⟨he, fun h => by cases h⟩
  | chosen h best1 =>
    refine ⟨⟨fun k hk => ?_, he.workers⟩, fun _ => h⟩
    rw [← Option.some.inj hk]
    exact h
  | lost h => exact ⟨⟨fun k hk => (nomatch hk), he.workers⟩, fun _ => h⟩
  | kept h => exact ⟨he, fun _ => h⟩

theorem electPass_all {st cd : Bool} (hgood : ∀ j, Accepted b st cd domain best w j → Good j) (js : List Nat)
    {e : Election} (he : e.All Good) : (electPass b st cd domain best w js e).All Good := by
  induction js generalizing e with
  | nil => exact he
  | cons j js ih =>
    have hproc : Processed e j (Good j) (internalProcessWorker b st cd domain best w e j) := by
      have h := @internalProcessWorker_processed b domain best w st cd e j
      generalize internalProcessWorker b st cd domain best w e j = q at h
      cases h with
      | skipped => exact .skipped
      | chosen h best1 => exact .chosen (hgood j h) best1
      | lost h => exact .lost (hgood j h)
      | kept h => exact .kept (hgood j h)
    obtain ⟨hall, hj⟩ := hproc.all he
    unfold electPass
    split
    · rename_i e' heq
      rw [heq] at hall
      exact ih hall
    · rename_i e' heq
      rw [heq] at hall hj
      have hall' : Election.All Good { e' with workers := e'.workers ++ [j] } := by
        refine ⟨hall.candidate, fun k hk => ?_⟩
        rcases List.mem_append.mp hk with hk | hk
        · exact hall.workers k hk
        · rw [List.mem_singleton.mp hk]
          exact hj rfl
      simp only
      split
      · exact hall'
      · exact ih hall'

theorem failoverTarget_mem {r : Request} {workers : List Nat} {j : Nat}
    (h : failoverTarget cfg b w r workers = .pick j) : j ∈ workers := by
  unfold failoverTarget at h
  split at h
  swap
  · cases h
  split at h
  · cases h
  split at h
  swap
  · cases h
  simp only at h
  split at h
  · cases h
  split at h
  · rename_i k hk
    cases h
    exact (List.mem_insertionSort _).mp (List.mem_of_getElem? hk)
  · cases h

theorem electLoop_all {r : Request} {passes : List (Bool × Bool)}
    (hgood : ∀ p ∈ passes, ∀ j, Accepted b p.1 p.2 domain best w j → Good j) {e : Election} (he : e.All Good)
    {j : Nat} {cd : Bool} {nodecontext : NodeContext}
    (h : electLoop cfg b domain best w r passes e = .worker j cd nodecontext) : Good j := by
  induction passes generalizing e with
  | nil => cases h
  | cons p rest ih =>
    have hpass := electPass_all (b := b) (w := w)
      (hgood p List.mem_cons_self) (w.workers b) he
    obtain ⟨st, cd'⟩ := p
    unfold electLoop at h
    simp only at h hpass
    generalize electPass b st cd' domain best w (w.workers b) e = e' at h hpass
    split at h
    · exact ih (fun p hp => hgood p (List.mem_cons_of_mem _ hp)) hpass h
    · rename_i j' nodecontext' hcand hctx
      cases h
      split at hcand
      · rw [Option.map_eq_some_iff] at hcand
        obtain ⟨k, hk, hkj⟩ := hcand
        rw [← Option.some.inj hkj]
        exact hpass.candidate k hk
      · rename_i k hpick
        cases hcand
        exact hpass.workers _ (failoverTarget_mem hpick)
      · cases hcand
    · cases h

variable {s : Snapshot} {failoverdomain : Bool} {balancer : ProxyBalancer} {h : Handling}

theorem electWorker_found {j : Nat} (hj : (electWorker cfg s b domain failoverdomain balancer h).2 = .worker j) :
    ∃ best, (findNodeContextHost cfg.useAlias s h.world.server.balancers h.request (some balancer)
        h.request.notes.sessionRoute).2 = some best ∧
      (∃ p ∈ electionPasses domain failoverdomain, Accepted b p.1 p.2 domain best h.world j) ∧
      (electWorker cfg s b domain failoverdomain balancer h).1.world = h.world.write b j electedOnce := by
  unfold electWorker at hj ⊢
  split
  · rename_i r heq
    rw [heq] at hj
    cases hj
  rename_i r best heq
  rw [heq] at hj
  simp only at hj
  split
  · rename_i hloop
    rw [hloop] at hj
    cases hj
  · rename_i hloop
    rw [hloop] at hj
    cases hj
  · rename_i j' cd nodecontext hloop
    rw [hloop] at hj
    cases hj
    refine ⟨best, by rw [heq], ?_, rfl⟩
    have hnone : Election.All (fun j => ∃ p ∈ electionPasses domain failoverdomain,
        Accepted b p.1 p.2 domain best h.world j) ⟨none, none, []⟩ :=
      ⟨fun j hj => (nomatch hj), fun j hj => (nomatch hj)⟩
    exact electLoop_all (fun p hp j hacc => ⟨p, hp, hacc⟩) hnone hloop

end Elect

/-! ## Tries -/

section Tries

variable {httpd : Httpd} {cfg : Settings} {s : Snapshot} {b : Nat} {turns : Nat → Turn} {domain : Option Str}
  {failoverdomain : Bool} {I : Handling → Prop} {Good : Handling → Nat → Prop}
  (htry : ∀ k h, I h → I (internalFindBestByrequests httpd cfg s b (turns k) domain failoverdomain h).1 ∧
    ∀ j, (internalFindBestByrequests httpd cfg s b (turns k) domain failoverdomain h).2 = .worker j →
      Good (internalFindBestByrequests httpd cfg s b (turns k) domain failoverdomain h).1 j)
  (hothers : ∀ k h, I h → I { h with world := (turns k).others h.world })
include htry hothers

theorem waitLoop_rule {timeout step : Int} (fuel : Nat) {k : Nat} {tval : Int} {h : Handling} (hI : I h) :
    I (waitLoop httpd cfg s b turns domain failoverdomain timeout step fuel k tval h).1 ∧
      ∀ j, (waitLoop httpd cfg s b turns domain failoverdomain timeout step fuel k tval h).2 = .worker j →
        Good (waitLoop httpd cfg s b turns domain failoverdomain timeout step fuel k tval h).1 j := by
  induction fuel generalizing k tval h with
  | zero => exact ⟨hI, fun j hj => by cases hj⟩
  | succ fuel ih =>
    have hnext := htry k _ (hothers k h hI)
    unfold waitLoop
    split
    swap
    · exact ⟨hI, fun j hj => by cases hj⟩
    split
    · rename_i h' heq
      rw [heq] at hnext
      exact ih hnext.1
    · exact hnext

theorem findBestWorker_rule (fuel : Nat) {h : Handling} (hI : I h) :
    I (findBestWorker httpd cfg s b turns fuel domain failoverdomain h).1 ∧
      ∀ j, (findBestWorker httpd cfg s b turns fuel domain failoverdomain h).2 = .worker j →
        Good (findBestWorker httpd cfg s b turns fuel domain failoverdomain h).1 j := by
  have hfirst := htry 0 h hI
  unfold findBestWorker
  split
  · rename_i h' heq
    rw [heq] at hfirst
    split
    · exact ⟨hfirst.1, fun j hj => by cases hj⟩
    split
    · exact waitLoop_rule htry hothers fuel hfirst.1
    · exact ⟨hfirst.1, fun j hj => by cases hj⟩
  · exact hfirst

end Tries

/-! ## The request goes out -/

section Dispatch

variable {h : Handling} {b j b' k : Nat}

theorem write_nodes (w : World) (b k : Nat) (f : WorkerShared → WorkerShared) :
    (w.write b k f).tables.nodes.size = w.tables.nodes.size ∧
      ∀ i, ((w.write b k f).tables.nodes.peek i).mess = (w.tables.nodes.peek i).mess := by
  unfold World.write
  split
  · rename_i worker _
    unfold Worker.write
    simp only
    split
    · exact ⟨size_poke _ _ _, (StatWrites.refl.write).mess⟩
    · exact ⟨rfl, fun _ => rfl⟩
  · exact ⟨rfl, fun _ => rfl⟩

theorem updateHelper_area {h' : Handling} {f : Helper → Helper} (hh : h.updateHelper b j f = some h') :
    h'.world.tables = h.world.tables ∧ h'.world.area b' k = h.world.area b' k := by
  unfold Handling.updateHelper at hh
  split at hh
  · cases hh
  rename_i worker hworker
  split at hh
  · cases hh
  rename_i helper hhelper
  cases hh
  refine ⟨rfl, ?_⟩
  unfold World.area
  simp only
  rw [Server.worker?_setWorker]
  by_cases hsame : b = b' ∧ j = k
  · obtain ⟨rfl, rfl⟩ := hsame
    rw [if_pos ⟨rfl, rfl⟩, hworker, Option.map_some]
    exact Worker.area_eq rfl rfl fun _ => rfl
  · rw [if_neg hsame]

theorem updContextCount_nodes (ts : Tables) (id : Option Int) (val : Int) :
    (updContextCount ts id val).nodes = ts.nodes := by
  unfold updContextCount
  split <;> rfl

theorem area_setTables {ts : Tables} (hnodes : ts.nodes = h.world.tables.nodes) :
    (h.setTables ts).world.area b' k = h.world.area b' k := by
  unfold World.area Handling.setTables
  simp only
  split
  · exact Worker.area_eq rfl rfl fun i => by rw [hnodes]
  · rfl

theorem dispatch_spec {url : Str} (hk : (dispatch b j url h).2.1 = .ok k) :
    k = j ∧ ((dispatch b j url h).1.world.area b j).index = (h.world.area b j).index ∧
      (dispatch b j url h).1.world.tables.nodes.size = h.world.tables.nodes.size ∧
      ∀ i, ((dispatch b j url h).1.world.tables.nodes.peek i).mess = (h.world.tables.nodes.peek i).mess := by
  unfold dispatch at hk ⊢
  simp only at hk ⊢
  split at hk
  · cases hk
  rename_i h' hh
  cases hk
  obtain ⟨htables, harea⟩ := updateHelper_area (k := j) hh
  have hnodes := updContextCount_nodes (h.write b j busyOnce).world.tables
    (h.write b j busyOnce).request.notes.contextId 1
  have hbusy := @area_write_keeps h.world b b j j busyOnce _ (fun s => s.index) fun _ => rfl
  obtain ⟨hsize, hmess⟩ := write_nodes h.world b j busyOnce
  simp only [Handling.setRequest]
  rw [harea, area_setTables hnodes, htables]
  simp only [Handling.setTables]
  rw [hnodes]
  exact ⟨trivial, hbusy, hsize, hmess⟩

end Dispatch

end ModCluster
