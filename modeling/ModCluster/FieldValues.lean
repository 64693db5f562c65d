import ModCluster.ListFields

/-!
# What a CONFIG message says

The fields of a message are read in place: a value is lowered, cut into pieces or
shortened where it lies. None of that reaches another token as long as no list ends in
a comma. So what CONFIG takes from its message is a matter of the keys and values
alone, and `readFields` says which.
-/

open CString Slotmem

namespace ModCluster

variable {httpd : Httpd}

/-! ## Fields other than Alias and Context -/

/-- Such a field takes some values, and sets something of the node or the balancer. -/
structure PlainField where
  name : Str
  accepts : Str → Bool
  set : Str → Nodeinfo × Balancerinfo → Nodeinfo × Balancerinfo

def onBalancer (f : Balancerinfo → Balancerinfo) (x : Nodeinfo × Balancerinfo) : Nodeinfo × Balancerinfo :=
  (x.1, f x.2)

def onMess (f : Nodemess → Nodemess) (x : Nodeinfo × Balancerinfo) : Nodeinfo × Balancerinfo :=
  ({ x.1 with mess := f x.1.mess }, x.2)

def anyValue (_ : Str) : Bool := true

def shorterThan (size : Nat) (v : Str) : Bool := decide (v.length < size)

def isTime (httpd : Httpd) (unit : Str) (v : Str) : Bool := (httpd.timeoutParameterParse v unit).isSome

def timeOf (httpd : Httpd) (unit : Str) (v : Str) : Int := (httpd.timeoutParameterParse v unit).getD 0

def balancerFields : List PlainField :=
  [⟨ascii "Balancer", shorterThan BALANCERSZ, fun v x =>
      onMess (fun m => { m with balancer := truncate (BALANCERSZ - 1) (lower v) })
        (onBalancer (fun b => { b with balancer := truncate (BALANCERSZ - 1) (lower v) }) x)⟩,
    ⟨ascii "StickySession", anyValue, fun v => onBalancer fun b => { b with
      stickySession := (processBooleanParameter v).getD b.stickySession }⟩,
    ⟨ascii "StickySessionCookie", shorterThan COOKNAMESZ, fun v => onBalancer fun b => { b with
      stickySessionCookie := v }⟩,
    ⟨ascii "StickySessionPath", shorterThan PATHNAMESZ, fun v => onBalancer fun b => { b with
      stickySessionPath := v }⟩,
    ⟨ascii "StickySessionRemove", anyValue, fun v => onBalancer fun b => { b with
      stickySessionRemove := (processBooleanParameter v).getD b.stickySessionRemove }⟩,
    ⟨ascii "StickySessionForce", anyValue, fun v => onBalancer fun b => { b with
      stickySessionForce := (processBooleanParameter v).getD b.stickySessionForce }⟩,
    ⟨ascii "WaitWorker", anyValue, fun v => onBalancer fun b => { b with
      timeout := toInt32 (atoi v * 1000000) }⟩,
    ⟨ascii "Maxattempts", anyValue, fun v => onBalancer fun b => { b with maxattempts := atoi v }⟩]

/-- The host as it is stored. -/
def hostOf (v : Str) : Str := if v.head? = some (ch '[') then stripZone false v else v

def nodeFields (httpd : Httpd) : List PlainField :=
  [⟨ascii "JVMRoute", shorterThan httpd.routeSize, fun v => onMess fun m => { m with jvmRoute := v }⟩,
    ⟨ascii "Domain", shorterThan DOMAINNDSZ, fun v => onMess fun m => { m with domain := v }⟩,
    ⟨ascii "Host", shorterThan HOSTNODESZ, fun v => onMess fun m => { m with host := hostOf v }⟩,
    ⟨ascii "Port", shorterThan PORTNODESZ, fun v => onMess fun m => { m with port := v }⟩,
    ⟨ascii "Type", shorterThan SCHEMENDSZ, fun v => onMess fun m => { m with type := v }⟩,
    ⟨ascii "Reversed", anyValue, fun v => onMess fun m => { m with
      reversed := (processBooleanParameter v).getD m.reversed }⟩,
    ⟨ascii "flushpackets", anyValue, fun v => onMess fun m => { m with
      flushpackets := flushpacketsField v m.flushpackets }⟩,
    ⟨ascii "flushwait", isTime httpd (ascii "ms"), fun v => onMess fun m => { m with
      flushwait := toInt32 (timeOf httpd (ascii "ms") v) }⟩,
    ⟨ascii "ping", isTime httpd (ascii "s"), fun v => onMess fun m => { m with
      ping := timeOf httpd (ascii "s") v }⟩,
    ⟨ascii "smax", anyValue, fun v => onMess fun m => { m with smax := atoi v }⟩,
    ⟨ascii "ttl", isTime httpd (ascii "s"), fun v => onMess fun m => { m with
      ttl := timeOf httpd (ascii "s") v }⟩,
    ⟨ascii "Timeout", isTime httpd (ascii "s"), fun v => onMess fun m => { m with
      timeout := timeOf httpd (ascii "s") v }⟩]

def plainFields (httpd : Httpd) : List PlainField := balancerFields ++ nodeFields httpd

/-! ## The handlers do what the fields say -/

/-- What a handler writes stays within the value and its NUL. -/
structure Implements (h : Str × Handler) (f : PlainField) : Prop where
  name : h.1 = f.name
  refuse : ∀ v val st, f.accepts v = false → ∃ e, h.2 v val st = .error e
  accept : ∀ v val st, f.accepts v = true → ∃ s : List Byte, s.length ≤ v.length + 1 ∧
    h.2 v val st = .ok { st with
      mem := write st.mem val s
      node := (f.set v (st.node, st.balancer)).1
      balancer := (f.set v (st.node, st.balancer)).2 }

theorem write_nil (m : Mem) (p : Nat) : write m p [] = m := by
  simp [write]

theorem write_lower (pre v tail : Mem) :
    write (pre ++ (v ++ tail)) pre.length (lower v) = pre ++ (lower v ++ tail) := by
  have hat := write_append pre (v ++ tail) 0 (lower v)
  rw [Nat.add_zero] at hat
  rw [hat]
  unfold write
  rw [List.take_zero, List.nil_append, Nat.zero_add, lower, List.length_map, List.drop_left]

theorem implements_balancer (name : Str) (g : Str → Balancerinfo → Balancerinfo) :
    Implements (name, fun v _ st => .ok (setBalancer st (g v))) ⟨name, anyValue, fun v => onBalancer (g v)⟩ := by
  refine ⟨rfl, fun v val st h => (by cases h), fun v val st _ => ⟨[], Nat.zero_le _, ?_⟩⟩
  rw [write_nil]
  rfl

theorem implements_cookie (name : Str) (size : Nat) (big : McmpError) (g : Str → Balancerinfo → Balancerinfo) :
    Implements (name, fun v _ st => if v.length ≥ size then .error big else .ok (setBalancer st (g v)))
      ⟨name, shorterThan size, fun v => onBalancer (g v)⟩ := by
  refine ⟨rfl, fun v val st h => ⟨big, ?_⟩, fun v val st h => ⟨[], Nat.zero_le _, ?_⟩⟩
  · have hlen : v.length ≥ size := Nat.le_of_not_lt (of_decide_eq_false h)
    exact if_pos hlen
  · have hlen : ¬ v.length ≥ size := Nat.not_le_of_lt (of_decide_eq_true h)
    rw [write_nil]
    exact if_neg hlen

theorem implements_copy (name : Str) (size : Nat) (big : McmpError) (g : Str → Nodemess → Nodemess) :
    Implements (name, fun v _ st => copyField st v size big (g v)) ⟨name, shorterThan size, fun v => onMess (g v)⟩ := by
  refine ⟨rfl, fun v val st h => ⟨big, ?_⟩, fun v val st h => ⟨[], Nat.zero_le _, ?_⟩⟩
  · have hlen : v.length ≥ size := Nat.le_of_not_lt (of_decide_eq_false h)
    exact if_pos hlen
  · have hlen : ¬ v.length ≥ size := Nat.not_le_of_lt (of_decide_eq_true h)
    rw [write_nil]
    exact if_neg hlen

theorem implements_mess (name : Str) (g : Str → Nodemess → Nodemess) :
    Implements (name, fun v _ st => .ok (setMess st (g v))) ⟨name, anyValue, fun v => onMess (g v)⟩ := by
  refine ⟨rfl, fun v val st h => (by cases h), fun v val st _ => ⟨[], Nat.zero_le _, ?_⟩⟩
  rw [write_nil]
  rfl

theorem implements_time (name unit : Str) (bad : McmpError) (g : Int → Nodemess → Nodemess) :
    Implements (name, fun v _ st => timeField httpd st v unit bad g)
      ⟨name, isTime httpd unit, fun v => onMess (g (timeOf httpd unit v))⟩ := by
  refine ⟨rfl, fun v val st h => ⟨bad, ?_⟩, fun v val st h => ⟨[], Nat.zero_le _, ?_⟩⟩
  · have hnone : httpd.timeoutParameterParse v unit = none :=
      Option.isNone_iff_eq_none.mp (Option.isSome_eq_false_iff.mp h)
    simp only [timeField, hnone]
  · obtain ⟨t, ht⟩ := Option.isSome_iff_exists.mp h
    simp only [timeField, ht, timeOf, Option.getD_some, write_nil]
    rfl

theorem implements_balancerName :
    Implements (ascii "Balancer", fun v val st =>
        if v.length ≥ BALANCERSZ then .error .sbalbig else .ok (setBalancerName st val (lower v)))
      ⟨ascii "Balancer", shorterThan BALANCERSZ, fun v x =>
        onMess (fun m => { m with balancer := truncate (BALANCERSZ - 1) (lower v) })
          (onBalancer (fun b => { b with balancer := truncate (BALANCERSZ - 1) (lower v) }) x)⟩ := by
  refine ⟨rfl, fun v val st h => ⟨.sbalbig, ?_⟩, fun v val st h => ⟨lower v, ?_, ?_⟩⟩
  · have hlen : v.length ≥ BALANCERSZ := Nat.le_of_not_lt (of_decide_eq_false h)
    exact if_pos hlen
  · rw [lower, List.length_map]
    omega
  · have hlen : ¬ v.length ≥ BALANCERSZ := Nat.not_le_of_lt (of_decide_eq_true h)
    exact if_neg hlen

theorem length_stripZone_le (flag : Bool) (v : Str) : (stripZone flag v).length ≤ v.length := by
  induction v generalizing flag with
  | nil => exact Nat.le_refl _
  | cons b rest ih =>
    unfold stripZone
    split
    · exact Nat.le_succ_of_le (ih true)
    · exact Nat.succ_le_succ (ih flag)

theorem implements_host :
    Implements (ascii "Host", fun v val st =>
        if v.length ≥ HOSTNODESZ then .error .shosbig else .ok (hostField st val v))
      ⟨ascii "Host", shorterThan HOSTNODESZ, fun v => onMess fun m => { m with host := hostOf v }⟩ := by
  refine ⟨rfl, fun v val st h => ⟨.shosbig, ?_⟩, fun v val st h => ?_⟩
  · have hlen : v.length ≥ HOSTNODESZ := Nat.le_of_not_lt (of_decide_eq_false h)
    exact if_pos hlen
  have hlen : ¬ v.length ≥ HOSTNODESZ := Nat.not_le_of_lt (of_decide_eq_true h)
  simp only [if_neg hlen]
  unfold hostField hostOf
  split
  · refine ⟨stripZone false v ++ [0], ?_, rfl⟩
    rw [List.length_append]
    exact Nat.succ_le_succ (length_stripZone_le false v)
  · refine ⟨[], Nat.zero_le _, ?_⟩
    rw [write_nil]
    rfl

theorem balancerHandlers_implement : List.Forall₂ Implements balancerHandlers balancerFields :=
  .cons implements_balancerName (.cons (implements_balancer _ _) (.cons (implements_cookie _ _ _ _)
    (.cons (implements_cookie _ _ _ _) (.cons (implements_balancer _ _) (.cons (implements_balancer _ _)
      (.cons (implements_balancer _ _) (.cons (implements_balancer _ _) .nil)))))))

theorem nodeHandlers_implement : List.Forall₂ Implements (nodeHandlers httpd) (nodeFields httpd) :=
  .cons (implements_copy _ _ _ _) (.cons (implements_copy _ _ _ _) (.cons implements_host
    (.cons (implements_copy _ _ _ _) (.cons (implements_copy _ _ _ _) (.cons (implements_mess _ _)
      (.cons (implements_mess _ _) (.cons (implements_time _ _ _ _) (.cons (implements_time _ _ _ _)
        (.cons (implements_mess _ _) (.cons (implements_time _ _ _ _) (.cons (implements_time _ _ _ _) .nil)))))))))))

/-! ## Names -/

def fieldNamed (httpd : Httpd) (key : Str) : Option PlainField :=
  (plainFields httpd).find? fun f => caseEq key f.name

theorem caseEq_iff {a b : Str} : caseEq a b = true ↔ lower a = lower b := beq_iff_eq

theorem caseEq_congr {a b : Str} (h : caseEq a b = true) (c : Str) : caseEq a c = caseEq b c := by
  unfold caseEq
  rw [caseEq_iff.mp h]

/-- The names of all fields but Alias and Context. -/
def plainNames : List Str :=
  [ascii "Balancer", ascii "StickySession", ascii "StickySessionCookie", ascii "StickySessionPath",
    ascii "StickySessionRemove", ascii "StickySessionForce", ascii "WaitWorker", ascii "Maxattempts",
    ascii "JVMRoute", ascii "Domain", ascii "Host", ascii "Port", ascii "Type", ascii "Reversed",
    ascii "flushpackets", ascii "flushwait", ascii "ping", ascii "smax", ascii "ttl", ascii "Timeout"]

theorem plainFields_names : (plainFields httpd).map (·.name) = plainNames := rfl

theorem plainNames_distinct :
    (ascii "Alias" :: ascii "Context" :: plainNames).Pairwise fun a b => caseEq a b = false := by
  decide +kernel

theorem name_mem {f : PlainField} (hf : f ∈ plainFields httpd) : f.name ∈ plainNames := by
  rw [← @plainFields_names httpd]
  exact List.mem_map_of_mem hf

theorem fieldNamed_eq_none {key name : Str} (hkey : caseEq key name = true)
    (hname : ∀ a ∈ plainNames, caseEq name a = false) : fieldNamed httpd key = none := by
  rw [fieldNamed, List.find?_eq_none]
  intro f hf hcase
  rw [caseEq_congr hkey, hname _ (name_mem hf)] at hcase
  cases hcase

theorem fieldNamed_alias {key : Str} (hkey : caseEq key (ascii "Alias") = true) : fieldNamed httpd key = none :=
  fieldNamed_eq_none hkey fun a ha =>
    (List.pairwise_cons.mp plainNames_distinct).1 a (List.mem_cons_of_mem _ ha)

theorem fieldNamed_context {key : Str} (hkey : caseEq key (ascii "Context") = true) : fieldNamed httpd key = none :=
  fieldNamed_eq_none hkey (List.pairwise_cons.mp (List.pairwise_cons.mp plainNames_distinct).2).1

theorem find_implements {hs : List (Str × Handler)} {fs : List PlainField} (h : List.Forall₂ Implements hs fs)
    (key : Str) :
    (hs.find? fun h => caseEq key h.1) = none ∧ (fs.find? fun f => caseEq key f.name) = none ∨
      ∃ a f, (hs.find? fun h => caseEq key h.1) = some a ∧ (fs.find? fun f => caseEq key f.name) = some f ∧
        Implements a f := by
  induction h with
  | nil => exact Or.inl ⟨rfl, rfl⟩
  | @cons a f hs fs haf _ ih =>
    rw [List.find?_cons, List.find?_cons, haf.name]
    cases hc : caseEq key f.name with
    | true => exact Or.inr ⟨a, f, rfl, rfl, haf⟩
    | false => exact ih

/-! ## Lists -/

/-- The elements of a list, unless it is refused. -/
def listOf (lenLimit : Nat) (v : Str) : Option (List Str) :=
  let s := parseListToArrayWithChecks (v ++ [0]) 0 lenLimit
  if s.ret = 0 then some (s.starts.map (strAt (putNuls (v ++ [0]) s.nuls))) else none

def EndsInComma (v : Str) : Prop := v.getLast? = some (ch ',')

instance (v : Str) : Decidable (EndsInComma v) := inferInstanceAs (Decidable (_ = _))

theorem EndsInComma.cons {b c : Byte} {rest : Str} (h : EndsInComma (c :: rest)) : EndsInComma (b :: c :: rest) := by
  unfold EndsInComma at *
  rw [List.getLast?_cons_cons]
  exact h

theorem parseListLoop_local {lenLimit : Nat} (hlim : lenLimit ≠ 0) (behind : Mem) (v : Str) (current start len : Nat)
    (hv : 0 ∉ v) (hcomma : ¬ EndsInComma v) :
    parseListLoop lenLimit (v ++ 0 :: behind) current start len =
      parseListLoop lenLimit (v ++ [0]) current start len := by
  induction v using List.twoStepInduction generalizing current start len with
  | nil => rw [List.nil_append, List.nil_append, parseListLoop_nul, parseListLoop_nul]
  | singleton b =>
    have hb : b ≠ 0 := fun h => hv (by rw [h]; exact List.mem_singleton_self 0)
    have hbc : b ≠ ch ',' := fun h => hcomma (by rw [h]; rfl)
    rw [List.singleton_append, List.singleton_append, parseListLoop_char _ _ _ _ hb hbc,
      parseListLoop_char _ _ _ _ hb hbc, parseListLoop_nul, parseListLoop_nul]
  | cons_cons b c rest ih ih1 =>
    have hb : b ≠ 0 := fun h => hv (by rw [h]; exact List.mem_cons_self)
    have hnul : 0 ∉ c :: rest := fun h => hv (List.mem_cons_of_mem _ h)
    have hlast : ¬ EndsInComma (c :: rest) := fun h => hcomma h.cons
    by_cases hbc : b = ch ','
    · -- The byte behind the comma is passed unseen.
      subst hbc
      have hlast' : ¬ EndsInComma rest := by
        intro h
        cases rest with
        | nil => cases h
        | cons d rest => exact hlast h.cons
      simp only [List.cons_append]
      rw [parseListLoop_comma _ _ _ _ hlim, parseListLoop_comma _ _ _ _ hlim,
        ih (current + 2) (current + 1) 0 (fun h => hnul (List.mem_cons_of_mem _ h)) hlast']
    · have heq := ih1 c (current + 1) start (len + 1) hnul hlast
      rw [List.cons_append (a := b), parseListLoop_char _ _ _ _ hb hbc, heq, List.cons_append (a := b),
        parseListLoop_char _ _ _ _ hb hbc]

theorem parseList_local {lenLimit : Nat} (hlim : lenLimit ≠ 0) {v : Str} (hv : 0 ∉ v) (hcomma : ¬ EndsInComma v)
    (mid behind : Mem) :
    parseListToArrayWithChecks (mid ++ (v ++ 0 :: behind)) mid.length lenLimit =
      (parseListToArrayWithChecks (v ++ [0]) 0 lenLimit).shift mid.length := by
  have hshift := parseList_shift mid (v ++ 0 :: behind) 0 lenLimit
  rw [Nat.add_zero] at hshift
  rw [hshift]
  exact congrArg (Split.shift mid.length) (parseListLoop_local hlim behind v 0 0 0 hv hcomma)

/-! ## One field -/

/-- The aliases a field adds. -/
def aliasesOf (p : Str × Str) : List Str :=
  if caseEq p.1 (ascii "Alias") then (listOf HOSTALIASZ (lower p.2)).getD [] else []

def contextsOf (p : Str × Str) : List Str :=
  if caseEq p.1 (ascii "Context") then (listOf CONTEXTSZ p.2).getD [] else []

def applyField (httpd : Httpd) (x : Nodeinfo × Balancerinfo) (p : Str × Str) : Nodeinfo × Balancerinfo :=
  match fieldNamed httpd p.1 with
  | some f => f.set p.2 x
  | none => x

/-- CONFIG takes the field. -/
def takesField (httpd : Httpd) (p : Str × Str) : Bool :=
  p.2 != [] &&
    if caseEq p.1 (ascii "Alias") then (listOf HOSTALIASZ (lower p.2)).isSome
    else if caseEq p.1 (ascii "Context") then (listOf CONTEXTSZ p.2).isSome
    else match fieldNamed httpd p.1 with
      | some f => f.accepts p.2
      | none => true

/-- The value lies behind `mid`, and `rest` behind it. What a field leaves of that is as
long as the value was, and holds what the field has added to the lists. -/
structure Took (httpd : Httpd) (mid rest : Mem) (p : Str × Str) (st st' : Parsing) : Prop where
  settings : (st'.node, st'.balancer) = applyField httpd (st.node, st.balancer) p
  lists : ∃ (w : Mem) (aliases contexts : List Nat), w.length = p.2.length + 1 ∧ st'.mem = mid ++ (w ++ rest) ∧
    st'.aliases = st.aliases ++ aliases ∧ st'.contexts = st.contexts ++ contexts ∧
    (∀ x, aliases.map (strAt (mid ++ (w ++ x))) = aliasesOf p) ∧
    ∀ x, contexts.map (strAt (mid ++ (w ++ x))) = contextsOf p

theorem write_value (mid rest : Mem) (v : Str) {s : List Byte} (hs : s.length ≤ v.length + 1) :
    ∃ w : Mem, w.length = v.length + 1 ∧ write (mid ++ (v ++ 0 :: rest)) mid.length s = mid ++ (w ++ rest) := by
  refine ⟨write (v ++ [0]) 0 s, ?_, ?_⟩
  · unfold write
    simp only [List.take_zero, List.nil_append, List.length_append, List.length_drop, List.length_singleton,
      Nat.zero_add]
    omega
  · have hat := write_append mid (v ++ 0 :: rest) 0 s
    rw [Nat.add_zero] at hat
    rw [hat]
    refine congrArg (mid ++ ·) ?_
    unfold write
    have hsplit : v ++ 0 :: rest = (v ++ [0]) ++ rest := by simp
    rw [hsplit]
    simp only [List.take_zero, List.nil_append, Nat.zero_add]
    rw [List.drop_append_of_le_length (by simpa using hs), List.append_assoc]

theorem fields_apart {key : Str} {f g : PlainField} (hf : f ∈ balancerFields) (hg : g ∈ nodeFields httpd)
    (hkf : caseEq key f.name = true) (hkg : caseEq key g.name = true) : False := by
  have hp : plainNames.Pairwise fun a b => caseEq a b = false :=
    (List.pairwise_cons.mp (List.pairwise_cons.mp plainNames_distinct).2).2
  rw [← @plainFields_names httpd, plainFields, List.map_append, List.pairwise_append] at hp
  have hfg := hp.2.2 f.name (List.mem_map_of_mem hf) g.name (List.mem_map_of_mem hg)
  rw [← caseEq_congr hkf, hkg] at hfg
  cases hfg

theorem fieldNamed_cases (httpd : Httpd) (key : Str) :
    (fieldNamed httpd key = none ∧ (balancerHandlers.find? fun h => caseEq key h.1) = none ∧
        ((nodeHandlers httpd).find? fun h => caseEq key h.1) = none) ∨
      ∃ f h, fieldNamed httpd key = some f ∧ Implements h f ∧
        ((balancerHandlers.find? fun h => caseEq key h.1) = some h ∧
            ((nodeHandlers httpd).find? fun h => caseEq key h.1) = none ∨
          (balancerHandlers.find? fun h => caseEq key h.1) = none ∧
            ((nodeHandlers httpd).find? fun h => caseEq key h.1) = some h) := by
  unfold fieldNamed plainFields
  rw [List.find?_append]
  rcases find_implements balancerHandlers_implement key with ⟨hb, hbf⟩ | ⟨h, f, hb, hbf, himp⟩ <;>
    rcases find_implements (@nodeHandlers_implement httpd) key with ⟨hn, hnf⟩ | ⟨h', f', hn, hnf, himp'⟩
  · left
    rw [hbf, hnf]
    exact ⟨rfl, hb, hn⟩
  · right
    rw [hbf, hnf]
    exact ⟨f', h', rfl, himp', Or.inr ⟨hb, hn⟩⟩
  · right
    rw [hbf]
    exact ⟨f, h, rfl, himp, Or.inl ⟨hb, hn⟩⟩
  · have hkf : caseEq key f.name = true := List.find?_some (p := fun f : PlainField => caseEq key f.name) hbf
    have hkg : caseEq key f'.name = true := List.find?_some (p := fun f : PlainField => caseEq key f.name) hnf
    exact (fields_apart (List.mem_of_find?_eq_some hbf) (List.mem_of_find?_eq_some hnf) hkf hkg).elim

section Field

variable {mid rest : Mem} {k v : Str} {key : Nat} {st : Parsing}

theorem processContextAlias_other {ls : Lists} (hkey : strAt ls.mem key = k)
    (halias : caseEq k (ascii "Alias") = false) (hcontext : caseEq k (ascii "Context") = false) (val : Nat) :
    processContextAlias key val ls = .ok ls := by
  unfold processContextAlias
  simp only [hkey, halias, hcontext, Bool.false_eq_true, if_false]

theorem runHandler_found {hs : List (Str × Handler)} {h : Str × Handler} {val : Nat} (hkey : strAt st.mem key = k)
    (hfind : (hs.find? fun h => caseEq k h.1) = some h) :
    runHandler hs key val st = h.2 (strAt st.mem val) val st := by
  unfold runHandler
  rw [hkey, hfind]

theorem runHandler_missing {hs : List (Str × Handler)} {val : Nat} (hkey : strAt st.mem key = k)
    (hfind : (hs.find? fun h => caseEq k h.1) = none) : runHandler hs key val st = .ok st := by
  unfold runHandler
  rw [hkey, hfind]

theorem list_took {lenLimit : Nat} (hlim : lenLimit ≠ 0) {u : Str} (hu : 0 ∉ u) (hcomma : ¬ EndsInComma u)
    (mid rest : Mem) :
    match listOf lenLimit u with
    | some l =>
      (parseListToArrayWithChecks (mid ++ (u ++ 0 :: rest)) mid.length lenLimit).ret = 0 ∧
      ∃ w : Mem, w.length = u.length + 1 ∧
        putNuls (mid ++ (u ++ 0 :: rest))
          (parseListToArrayWithChecks (mid ++ (u ++ 0 :: rest)) mid.length lenLimit).nuls = mid ++ (w ++ rest) ∧
        ∀ x, (parseListToArrayWithChecks (mid ++ (u ++ 0 :: rest)) mid.length lenLimit).starts.map
          (strAt (mid ++ (w ++ x))) = l
    | none => (parseListToArrayWithChecks (mid ++ (u ++ 0 :: rest)) mid.length lenLimit).ret ≠ 0 := by
  have hlocal := parseList_local hlim hu hcomma mid rest
  have hlt : 0 < (u ++ [0]).length := by simp
  have hend : Ended (u ++ [0]) := Ended.append rfl
  unfold listOf
  simp only
  rw [hlocal]
  by_cases hret : (parseListToArrayWithChecks (u ++ [0]) 0 lenLimit).ret = 0
  · rw [if_pos hret]
    refine ⟨hret, putNuls (u ++ [0]) (parseListToArrayWithChecks (u ++ [0]) 0 lenLimit).nuls, ?_, ?_, fun x => ?_⟩
    · rw [putNuls_length]
      simp
    · have hsplit : u ++ 0 :: rest = (u ++ [0]) ++ rest := by simp
      rw [Split.shift, putNuls_append, hsplit, putNuls_behind rest (parseList_nuls hlt)]
    · rw [Split.shift, List.map_map]
      refine List.map_congr_left fun p hp => ?_
      have hp' := parseList_starts hlt hret p hp
      rw [Function.comp_apply, strAt_append]
      exact (hend.putNuls _).strAt_append x (by rw [putNuls_length]; exact hp')
  · rw [if_neg hret]
    exact hret

theorem toLower_eq_zero : ∀ b : Byte, toLower b = 0 → b = 0 := forall_byte (by decide +kernel)

theorem toLower_eq_comma : ∀ b : Byte, toLower b = ch ',' → b = ch ',' := forall_byte (by decide +kernel)

theorem nul_notMem_lower {v : Str} (hv : 0 ∉ v) : 0 ∉ lower v := by
  intro h
  obtain ⟨b, hb, heq⟩ := List.mem_map.mp h
  rw [toLower_eq_zero b heq] at hb
  exact hv hb

theorem EndsInComma.of_lower {v : Str} (h : EndsInComma (lower v)) : EndsInComma v := by
  unfold EndsInComma lower at *
  rw [List.getLast?_map, Option.map_eq_some_iff] at h
  obtain ⟨b, hb, heq⟩ := h
  rw [hb, toLower_eq_comma b heq]

theorem configField_plain (hv : 0 ∉ v) (hkey : ∀ x, strAt (mid ++ x) key = k)
    (hmem : st.mem = mid ++ (v ++ 0 :: rest)) (halias : caseEq k (ascii "Alias") = false)
    (hcontext : caseEq k (ascii "Context") = false) (hne : v ≠ []) :
    if takesField httpd (k, v) then
      ∃ st', configField httpd key mid.length st = .ok st' ∧ Took httpd mid rest (k, v) st st'
    else ∃ e, configField httpd key mid.length st = .error e := by
  have hk : strAt st.mem key = k := by rw [hmem, hkey]
  have hval : strAt st.mem mid.length = v := by rw [hmem, strAt_token hv]
  have hnew : aliasesOf (k, v) = [] ∧ contextsOf (k, v) = [] := by
    simp [aliasesOf, contextsOf, halias, hcontext]
  have htakes : takesField httpd (k, v) =
      match fieldNamed httpd k with | some f => f.accepts v | none => true := by
    simp [takesField, halias, hcontext, hne]
  rcases fieldNamed_cases httpd k with ⟨hnone, hb, hn⟩ | ⟨f, h, hsome, himp, hwhere⟩
  · rw [if_pos (by rw [htakes, hnone])]
    refine ⟨st, ?_, ?_, v ++ [0], [], [], by simp, by rw [hmem]; simp, by simp, by simp, fun _ => hnew.1.symm,
      fun _ => hnew.2.symm⟩
    · unfold configField processConfigBalancer processConfigNode
      rw [runHandler_missing hk hb]
      simp only
      rw [runHandler_missing hk hn]
      simp only
      have hlast : processContextAlias key mid.length ⟨st.mem, st.contexts, st.aliases⟩ = .ok _ :=
        processContextAlias_other hk halias hcontext _
      rw [hlast]
    · rw [applyField, hnone]
  · cases hacc : f.accepts v with
    | false =>
      rw [if_neg (by rw [htakes, hsome]; simp [hacc])]
      obtain ⟨e, he⟩ := himp.refuse v mid.length st hacc
      refine ⟨e, ?_⟩
      unfold configField processConfigBalancer processConfigNode
      rcases hwhere with ⟨hb, -⟩ | ⟨hb, hn⟩
      · rw [runHandler_found hk hb, hval, he]
      · rw [runHandler_missing hk hb]
        simp only
        rw [runHandler_found hk hn, hval, he]
    | true =>
      rw [if_pos (by rw [htakes, hsome]; exact hacc)]
      obtain ⟨s, hs, hok⟩ := himp.accept v mid.length st hacc
      obtain ⟨w, hw, hwrite⟩ := write_value mid rest v hs
      rw [hmem, hwrite] at hok
      obtain ⟨st', hst'⟩ : ∃ st' : Parsing,
          { st with
            mem := mid ++ (w ++ rest)
            node := (f.set v (st.node, st.balancer)).1
            balancer := (f.set v (st.node, st.balancer)).2 } = st' := ⟨_, rfl⟩
      rw [hst'] at hok
      have hk' : strAt st'.mem key = k := by
        rw [← hst']
        exact hkey _
      refine ⟨st', ?_, ?_, w, [], [], hw, ?_, ?_, ?_, fun _ => hnew.1.symm, fun _ => hnew.2.symm⟩
      · have hlast : processContextAlias key mid.length ⟨st'.mem, st'.contexts, st'.aliases⟩ = .ok _ :=
          processContextAlias_other hk' halias hcontext _
        unfold configField processConfigBalancer processConfigNode
        rcases hwhere with ⟨hb, hn⟩ | ⟨hb, hn⟩
        · rw [runHandler_found hk hb, hval, hok]
          simp only
          rw [runHandler_missing hk' hn]
          simp only
          rw [hlast]
        · rw [runHandler_missing hk hb]
          simp only
          rw [runHandler_found hk hn, hval, hok]
          simp only
          rw [hlast]
      · rw [applyField, hsome, ← hst']
      · rw [← hst']
      · rw [← hst', List.append_nil]
      · rw [← hst', List.append_nil]

theorem configField_list {ls : Lists} (hk : strAt st.mem key = k) (hname : fieldNamed httpd k = none) (val : Nat)
    (h : processContextAlias key val ⟨st.mem, st.contexts, st.aliases⟩ = .ok ls) :
    configField httpd key val st =
      .ok { st with mem := ls.mem, contexts := ls.contexts, aliases := ls.aliases } := by
  rcases fieldNamed_cases httpd k with ⟨-, hb, hn⟩ | ⟨f, _, hsome, -⟩
  · unfold configField processConfigBalancer processConfigNode
    rw [runHandler_missing hk hb]
    simp only
    rw [runHandler_missing hk hn]
    simp only
    rw [h]
  · rw [hname] at hsome
    cases hsome

theorem configField_list_refused {e : McmpError} (hk : strAt st.mem key = k) (hname : fieldNamed httpd k = none)
    (val : Nat) (h : processContextAlias key val ⟨st.mem, st.contexts, st.aliases⟩ = .error e) :
    configField httpd key val st = .error e := by
  rcases fieldNamed_cases httpd k with ⟨-, hb, hn⟩ | ⟨f, _, hsome, -⟩
  · unfold configField processConfigBalancer processConfigNode
    rw [runHandler_missing hk hb]
    simp only
    rw [runHandler_missing hk hn]
    simp only
    rw [h]
  · rw [hname] at hsome
    cases hsome

theorem caseEq_context_of_alias (h : caseEq k (ascii "Alias") = true) : caseEq k (ascii "Context") = false := by
  rw [caseEq_congr h]
  decide

theorem configField_alias (hv : 0 ∉ v) (hkey : ∀ x, strAt (mid ++ x) key = k)
    (hmem : st.mem = mid ++ (v ++ 0 :: rest)) (halias : caseEq k (ascii "Alias") = true)
    (hcomma : ¬ EndsInComma v) (hne : v ≠ []) :
    if takesField httpd (k, v) then
      ∃ st', configField httpd key mid.length st = .ok st' ∧ Took httpd mid rest (k, v) st st'
    else ∃ e, configField httpd key mid.length st = .error e := by
  have hk : strAt st.mem key = k := by rw [hmem, hkey]
  have hval : strAt st.mem mid.length = v := by rw [hmem, strAt_token hv]
  have hname : fieldNamed httpd k = none := fieldNamed_alias halias
  have hcontext := caseEq_context_of_alias halias
  have htakes : takesField httpd (k, v) = (listOf HOSTALIASZ (lower v)).isSome := by
    simp [takesField, halias, hne]
  -- The value in lower case, still with its NUL.
  have hlower : write st.mem mid.length (lower v) = mid ++ (lower v ++ 0 :: rest) := by rw [hmem, write_lower]
  have hlim : HOSTALIASZ ≠ 0 := by decide
  have hlist := list_took hlim (nul_notMem_lower hv) (fun h => hcomma h.of_lower) mid rest
  have hpca : processContextAlias key mid.length ⟨st.mem, st.contexts, st.aliases⟩ =
      if (parseListToArrayWithChecks (mid ++ (lower v ++ 0 :: rest)) mid.length HOSTALIASZ).ret = 0 then
        .ok ⟨putNuls (mid ++ (lower v ++ 0 :: rest))
            (parseListToArrayWithChecks (mid ++ (lower v ++ 0 :: rest)) mid.length HOSTALIASZ).nuls,
          st.contexts, st.aliases ++
            (parseListToArrayWithChecks (mid ++ (lower v ++ 0 :: rest)) mid.length HOSTALIASZ).starts⟩
      else if (parseListToArrayWithChecks (mid ++ (lower v ++ 0 :: rest)) mid.length HOSTALIASZ).ret = 1 then
        .error .salibig
      else .error .emptyAlias := by
    unfold processContextAlias
    simp only [hk, hval, halias, if_true, hlower]
  generalize parseListToArrayWithChecks (mid ++ (lower v ++ 0 :: rest)) mid.length HOSTALIASZ = split at hlist hpca
  cases hl : listOf HOSTALIASZ (lower v) with
  | none =>
    rw [hl] at hlist htakes
    rw [if_neg (by rw [htakes]; simp)]
    rw [if_neg hlist] at hpca
    split at hpca
    · exact ⟨_, configField_list_refused hk hname _ hpca⟩
    · exact ⟨_, configField_list_refused hk hname _ hpca⟩
  | some l =>
    rw [hl] at hlist htakes
    obtain ⟨hret, w, hw, hput, hread⟩ := hlist
    rw [if_pos (by rw [htakes]; rfl)]
    rw [if_pos hret, hput] at hpca
    refine ⟨_, configField_list hk hname _ hpca, ?_, w, split.starts, [], ?_, rfl, rfl, ?_, fun x => ?_,
      fun x => ?_⟩
    · rw [applyField, hname]
    · rw [hw, lower, List.length_map]
    · rw [List.append_nil]
    · simp only [aliasesOf, halias, if_true, hl, Option.getD_some]
      exact hread x
    · simp [contextsOf, hcontext]

theorem configField_context (hv : 0 ∉ v) (hkey : ∀ x, strAt (mid ++ x) key = k)
    (hmem : st.mem = mid ++ (v ++ 0 :: rest)) (halias : caseEq k (ascii "Alias") = false)
    (hcontext : caseEq k (ascii "Context") = true) (hcomma : ¬ EndsInComma v) (hne : v ≠ []) :
    if takesField httpd (k, v) then
      ∃ st', configField httpd key mid.length st = .ok st' ∧ Took httpd mid rest (k, v) st st'
    else ∃ e, configField httpd key mid.length st = .error e := by
  have hk : strAt st.mem key = k := by rw [hmem, hkey]
  have hname : fieldNamed httpd k = none := fieldNamed_context hcontext
  have htakes : takesField httpd (k, v) = (listOf CONTEXTSZ v).isSome := by
    simp [takesField, halias, hcontext, hne]
  have hlim : CONTEXTSZ ≠ 0 := by decide
  have hlist := list_took hlim hv hcomma mid rest
  have hpca : processContextAlias key mid.length ⟨st.mem, st.contexts, st.aliases⟩ =
      if (parseListToArrayWithChecks (mid ++ (v ++ 0 :: rest)) mid.length CONTEXTSZ).ret = 0 then
        .ok ⟨putNuls (mid ++ (v ++ 0 :: rest))
            (parseListToArrayWithChecks (mid ++ (v ++ 0 :: rest)) mid.length CONTEXTSZ).nuls,
          st.contexts ++ (parseListToArrayWithChecks (mid ++ (v ++ 0 :: rest)) mid.length CONTEXTSZ).starts,
          st.aliases⟩
      else if (parseListToArrayWithChecks (mid ++ (v ++ 0 :: rest)) mid.length CONTEXTSZ).ret = 1 then
        .error .sconbig
      else .error .emptyContext := by
    unfold processContextAlias
    simp only [hmem, hkey, halias, hcontext, Bool.false_eq_true, if_false, if_true]
  generalize parseListToArrayWithChecks (mid ++ (v ++ 0 :: rest)) mid.length CONTEXTSZ = split at hlist hpca
  cases hl : listOf CONTEXTSZ v with
  | none =>
    rw [hl] at hlist htakes
    rw [if_neg (by rw [htakes]; simp)]
    rw [if_neg hlist] at hpca
    split at hpca
    · exact ⟨_, configField_list_refused hk hname _ hpca⟩
    · exact ⟨_, configField_list_refused hk hname _ hpca⟩
  | some l =>
    rw [hl] at hlist htakes
    obtain ⟨hret, w, hw, hput, hread⟩ := hlist
    rw [if_pos (by rw [htakes]; rfl)]
    rw [if_pos hret, hput] at hpca
    refine ⟨_, configField_list hk hname _ hpca, ?_, w, [], split.starts, hw, rfl, ?_, rfl, fun x => ?_,
      fun x => ?_⟩
    · rw [applyField, hname]
    · rw [List.append_nil]
    · simp [aliasesOf, halias]
    · simp only [contextsOf, hcontext, if_true, hl, Option.getD_some]
      exact hread x

theorem configField_took (hv : 0 ∉ v) (hkey : ∀ x, strAt (mid ++ x) key = k)
    (hmem : st.mem = mid ++ (v ++ 0 :: rest)) (hne : v ≠ [])
    (hcomma : caseEq k (ascii "Alias") = true ∨ caseEq k (ascii "Context") = true → ¬ EndsInComma v) :
    if takesField httpd (k, v) then
      ∃ st', configField httpd key mid.length st = .ok st' ∧ Took httpd mid rest (k, v) st st'
    else ∃ e, configField httpd key mid.length st = .error e := by
  cases halias : caseEq k (ascii "Alias") with
  | true => exact configField_alias hv hkey hmem halias (hcomma (Or.inl halias)) hne
  | false =>
    cases hcontext : caseEq k (ascii "Context") with
    | true => exact configField_context hv hkey hmem halias hcontext (hcomma (Or.inr hcontext)) hne
    | false => exact configField_plain hv hkey hmem halias hcontext hne

end Field

/-! ## Whole messages -/

/-- The memory from offset `pos` on holds the keys and values, each with its NUL and
whatever decoding has left behind that. -/
inductive Layout : (pos : Nat) → List (Str × Str) → Mem → List Nat → Prop
  | nil {pos : Nat} (behind : Mem) : Layout pos [] behind []
  | cons {pos : Nat} {k v : Str} {sk sv : Mem} {pairs : List (Str × Str)} {mem : Mem} {ptr : List Nat}
      (hk : 0 ∉ k) (hv : 0 ∉ v)
      (h : Layout (pos + (k.length + 1 + sk.length) + (v.length + 1 + sv.length)) pairs mem ptr) :
      Layout pos ((k, v) :: pairs) (k ++ 0 :: (sk ++ (v ++ 0 :: (sv ++ mem))))
        (pos :: (pos + (k.length + 1 + sk.length)) :: ptr)

/-- The message consists of these keys and values. -/
def Argv.LaysOut (argv : Argv) (pairs : List (Str × Str)) : Prop := Layout 0 pairs argv.mem argv.ptr

/-- No list of the message ends in a comma. -/
def ListsEnd (pairs : List (Str × Str)) : Prop :=
  ∀ p ∈ pairs, caseEq p.1 (ascii "Alias") = true ∨ caseEq p.1 (ascii "Context") = true → ¬ EndsInComma p.2

instance (pairs : List (Str × Str)) : Decidable (ListsEnd pairs) :=
  inferInstanceAs (Decidable (∀ p ∈ pairs, _ → _))

theorem configFields_layout {pos : Nat} {pairs : List (Str × Str)} {mem : Mem} {ptr : List Nat}
    (h : Layout pos pairs mem ptr) (hends : ListsEnd pairs) (done : Mem) (hpos : pos = done.length) (st : Parsing)
    (hmem : st.mem = done ++ mem) (as cs : List Str) (has : ∀ x, st.aliases.map (strAt (done ++ x)) = as)
    (hcs : ∀ x, st.contexts.map (strAt (done ++ x)) = cs) :
    if pairs.all (takesField httpd) then
      ∃ st', configFields httpd ptr st = .ok st' ∧
        (st'.node, st'.balancer) = pairs.foldl (applyField httpd) (st.node, st.balancer) ∧
        st'.aliases.map (strAt st'.mem) = as ++ pairs.flatMap aliasesOf ∧
        st'.contexts.map (strAt st'.mem) = cs ++ pairs.flatMap contextsOf
    else ∃ e, configFields httpd ptr st = .error e := by
  induction h generalizing done st as cs with
  | nil behind =>
    refine ⟨st, rfl, rfl, ?_, ?_⟩
    · rw [hmem, has, List.flatMap_nil, List.append_nil]
    · rw [hmem, hcs, List.flatMap_nil, List.append_nil]
  | @cons pos k v sk sv pairs mem ptr hk hv _ ih =>
    subst hpos
    have hmid : st.mem = (done ++ (k ++ 0 :: sk)) ++ (v ++ 0 :: (sv ++ mem)) := by
      rw [hmem]
      simp
    have hlen : done.length + (k.length + 1 + sk.length) = (done ++ (k ++ 0 :: sk)).length := by
      simp only [List.length_append, List.length_cons]
      omega
    have hkey : ∀ x, strAt ((done ++ (k ++ 0 :: sk)) ++ x) done.length = k := by
      intro x
      have hx : (done ++ (k ++ 0 :: sk)) ++ x = done ++ (k ++ 0 :: (sk ++ x)) := by simp
      rw [hx, strAt_token hk]
    have hval : strAt st.mem (done ++ (k ++ 0 :: sk)).length = v := by rw [hmid, strAt_token hv]
    rw [hlen] at ih ⊢
    rw [configFields, hval, List.all_cons]
    by_cases hne : v = []
    · have htakes : takesField httpd (k, v) = false := by simp [takesField, hne]
      rw [if_pos hne, htakes, Bool.false_and, if_neg Bool.false_ne_true]
      exact ⟨_, rfl⟩
    rw [if_neg hne]
    have hfield := @configField_took httpd _ _ _ _ _ st hv hkey hmid hne (hends (k, v) List.mem_cons_self)
    cases htakes : takesField httpd (k, v) with
    | false =>
      rw [htakes, if_neg Bool.false_ne_true] at hfield
      obtain ⟨e, he⟩ := hfield
      rw [he, Bool.false_and, if_neg Bool.false_ne_true]
      exact ⟨e, rfl⟩
    | true =>
      rw [htakes, if_pos rfl] at hfield
      obtain ⟨st', hst', hsettings, w, na, nc, hw, hmem', hna, hnc, hreadA, hreadC⟩ := hfield
      have happ : ∀ x,
          ((done ++ (k ++ 0 :: sk)) ++ (w ++ sv)) ++ x = (done ++ (k ++ 0 :: sk)) ++ (w ++ (sv ++ x)) := by
        intro x
        simp only [List.append_assoc]
      have hold : ∀ x,
          ((done ++ (k ++ 0 :: sk)) ++ (w ++ sv)) ++ x = done ++ ((k ++ 0 :: sk) ++ (w ++ (sv ++ x))) := by
        intro x
        simp only [List.append_assoc]
      have hdone : (done ++ (k ++ 0 :: sk)).length + (v.length + 1 + sv.length) =
          ((done ++ (k ++ 0 :: sk)) ++ (w ++ sv)).length := by
        simp only [List.length_append, hw]
      have hrest := ih (fun p hp => hends p (List.mem_cons_of_mem _ hp)) _ hdone st' (by rw [hmem', happ])
        (as ++ aliasesOf (k, v)) (cs ++ contextsOf (k, v))
        (fun x => by rw [hna, List.map_append, happ, hreadA, ← happ, hold, has])
        (fun x => by rw [hnc, List.map_append, happ, hreadC, ← happ, hold, hcs])
      rw [hst', Bool.true_and]
      simp only
      split
      · rename_i hall
        rw [if_pos hall] at hrest
        obtain ⟨st'', hok, hset, ha, hc⟩ := hrest
        refine ⟨st'', hok, ?_, ?_, ?_⟩
        · rw [hset, hsettings, List.foldl_cons]
        · rw [ha, List.flatMap_cons, List.append_assoc]
        · rw [hc, List.flatMap_cons, List.append_assoc]
      · rename_i hall
        rw [if_neg hall] at hrest
        exact hrest

/-- What CONFIG takes from these keys and values, or nothing when it refuses them. -/
def readConfig (httpd : Httpd) (mconf : Mconf) (pairs : List (Str × Str)) : Option ConfigArgs :=
  if pairs.all (takesField httpd) then
    let x := pairs.foldl (applyField httpd) (processConfigNodeDefaults httpd mconf, processConfigBalancerDefaults mconf)
    let aliases := pairs.flatMap aliasesOf
    let contexts := pairs.flatMap contextsOf
    if x.1.mess.jvmRoute = [] then none
    else if aliases ≠ [] ∧ contexts = [] then none
    else if aliases = [] ∧ contexts ≠ [] then none
    else some {
      node := { x.1 with mess := nodeExtras mconf x.1.mess }
      balancer := x.2
      aliases := aliases
      contexts := contexts }
  else none

theorem parseConfig_eq (httpd : Httpd) (mconf : Mconf) {argv : Argv} {pairs : List (Str × Str)}
    (h : argv.LaysOut pairs) (hends : ListsEnd pairs) :
    match readConfig httpd mconf pairs with
    | some args => parseConfig httpd mconf argv = .ok args
    | none => ∃ e, parseConfig httpd mconf argv = .error e := by
  have hfields := @configFields_layout httpd _ _ _ _ h hends [] rfl
    { mem := argv.mem
      node := processConfigNodeDefaults httpd mconf
      balancer := processConfigBalancerDefaults mconf
      contexts := []
      aliases := [] } rfl [] [] (fun _ => rfl) (fun _ => rfl)
  unfold readConfig
  cases hall : pairs.all (takesField httpd) with
  | false =>
    rw [hall, if_neg Bool.false_ne_true] at hfields
    obtain ⟨e, he⟩ := hfields
    rw [if_neg Bool.false_ne_true]
    refine ⟨e, ?_⟩
    unfold parseConfig
    rw [he]
  | true =>
    rw [hall, if_pos rfl] at hfields
    obtain ⟨st, hst, hset, ha, hc⟩ := hfields
    rw [List.nil_append] at ha hc
    have hna : pairs.flatMap aliasesOf = [] ↔ st.aliases = [] := by rw [← ha, List.map_eq_nil_iff]
    have hnc : pairs.flatMap contextsOf = [] ↔ st.contexts = [] := by rw [← hc, List.map_eq_nil_iff]
    rw [if_pos rfl]
    simp only [← hset, ne_eq, hna, hnc]
    unfold parseConfig
    rw [hst]
    simp only
    by_cases hroute : st.node.mess.jvmRoute = []
    · rw [if_pos hroute, if_pos hroute]
      exact ⟨_, rfl⟩
    rw [if_neg hroute, if_neg hroute]
    by_cases halias : ¬ st.aliases = [] ∧ st.contexts = []
    · rw [if_pos halias, if_pos halias]
      exact ⟨_, rfl⟩
    rw [if_neg halias, if_neg halias]
    by_cases hcontext : st.aliases = [] ∧ ¬ st.contexts = []
    · rw [if_pos hcontext, if_pos hcontext]
      exact ⟨_, rfl⟩
    rw [if_neg hcontext, if_neg hcontext, ha, hc]

end ModCluster
