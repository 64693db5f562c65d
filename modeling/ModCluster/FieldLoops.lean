import ModCluster.Commands

/-!
# What the field loops touch

The handlers go over the tokens of a message two at a time, up to the NULL behind
the last one. A message with an odd number of tokens ends in a key without a value.
-/

open CString Slotmem

namespace ModCluster

/-- The methods that read fields. -/
inductive Method where
  | config
  | status
  | ping
  | enableApp
  | disableApp
  | stopApp
  | removeApp
deriving DecidableEq

/-! ## Loops -/

inductive Access where
  /-- `ptr[i]` is read. -/
  | entry (i : Nat)
  /-- `ptr[i]` is used as a string. -/
  | value (i : Nat)
deriving DecidableEq

/-- The array has `n` tokens and a NULL behind them. -/
def Access.Ok (n : Nat) : Access → Prop
  | .entry i => i ≤ n
  | .value i => i < n

def Safe (n : Nat) (trace : List Access) : Prop := ∀ a ∈ trace, a.Ok n

/-- What one turn of a loop does with the entry behind the key, and the state it
leaves unless the handler returns. -/
structure FieldTurn (σ : Type) where
  reads : Bool
  uses : Bool
  next : Option σ

def FieldTurn.accesses {σ : Type} (t : FieldTurn σ) (i : Nat) : List Access :=
  (if t.reads then [.entry i] else []) ++ if t.uses then [.value i] else []

section Loop

variable {σ : Type} (turn : σ → Nat → Option Nat → FieldTurn σ)

/-- The loop from index `i` on. Behind a key without a value the next index is the
one after the NULL. -/
def accesses : (i : Nat) → List Nat → σ → List Access
  | i, [], _ => [.entry i]
  | i, [key], st =>
    .entry i :: .value i :: ((turn st key none).accesses (i + 1) ++
      if (turn st key none).next.isSome then [.entry (i + 2)] else [])
  | i, key :: val :: rest, st =>
    .entry i :: .value i :: ((turn st key (some val)).accesses (i + 1) ++
      match (turn st key (some val)).next with
      | some st => accesses (i + 2) rest st
      | none => [])

/-- The state behind a number of pairs, unless the handler returns before. -/
def pairs : List Nat → σ → Option σ
  | [], st => some st
  | [_], _ => none
  | key :: val :: rest, st =>
    match (turn st key (some val)).next with
    | some st => pairs rest st
    | none => none

/-- The loop comes to a key that has no value, and uses it or goes on. -/
def Unpaired (ptr : List Nat) (st : σ) : Prop :=
  ∃ before key st', ptr = before ++ [key] ∧ pairs turn before st = some st' ∧
    ((turn st' key none).uses = true ∨ (turn st' key none).next.isSome = true)

variable {turn}

theorem not_unpaired_nil (st : σ) : ¬ Unpaired turn [] st := by
  rintro ⟨before, key, st', heq, -⟩
  exact absurd heq (by simp)

theorem unpaired_singleton (key : Nat) (st : σ) :
    Unpaired turn [key] st ↔ (turn st key none).uses = true ∨ (turn st key none).next.isSome = true := by
  constructor
  · rintro ⟨before, key', st', heq, hpairs, hbad⟩
    obtain ⟨rfl, hkey⟩ : before = [] ∧ [key'] = [key] := by
      cases before with
      | nil => exact ⟨rfl, heq.symm⟩
      | cons x rest =>
        have hlen := congrArg List.length heq
        simp at hlen
    cases hkey
    cases hpairs
    exact hbad
  · intro hbad
    exact ⟨[], key, st, rfl, rfl, hbad⟩

theorem unpaired_cons_cons (key val : Nat) (rest : List Nat) (st : σ) :
    Unpaired turn (key :: val :: rest) st ↔
      ∃ st', (turn st key (some val)).next = some st' ∧ Unpaired turn rest st' := by
  constructor
  · rintro ⟨before, last, st', heq, hpairs, hbad⟩
    cases before with
    | nil => exact absurd heq (by simp)
    | cons x before =>
      cases before with
      | nil => cases hpairs
      | cons y before =>
        rw [List.cons_append, List.cons_append] at heq
        obtain ⟨rfl, rfl, hrest⟩ : key = x ∧ val = y ∧ rest = before ++ [last] := by
          simpa using heq
        unfold pairs at hpairs
        split at hpairs
        · rename_i st₁ hnext
          exact ⟨st₁, hnext, before, last, st', hrest, hpairs, hbad⟩
        · cases hpairs
  · rintro ⟨st₁, hnext, before, last, st', rfl, hpairs, hbad⟩
    refine ⟨key :: val :: before, last, st', rfl, ?_, hbad⟩
    unfold pairs
    rw [hnext]
    exact hpairs

theorem safe_append {n : Nat} {l l' : List Access} : Safe n (l ++ l') ↔ Safe n l ∧ Safe n l' := by
  unfold Safe
  simp only [List.mem_append]
  exact ⟨fun h => ⟨fun a ha => h a (Or.inl ha), fun a ha => h a (Or.inr ha)⟩,
    fun h a ha => ha.elim (h.1 a) (h.2 a)⟩

theorem safe_cons {n : Nat} {a : Access} {l : List Access} : Safe n (a :: l) ↔ a.Ok n ∧ Safe n l := by
  unfold Safe
  simp only [List.mem_cons, forall_eq_or_imp]

theorem safe_nil {n : Nat} : Safe n [] := fun _ h => by cases h

theorem FieldTurn.safe_of_lt {t : FieldTurn σ} {i n : Nat} (h : i < n) : Safe n (t.accesses i) := by
  unfold FieldTurn.accesses
  refine safe_append.mpr ⟨?_, ?_⟩
  · split
    · exact safe_cons.mpr ⟨Nat.le_of_lt h, safe_nil⟩
    · exact safe_nil
  · split
    · exact safe_cons.mpr ⟨h, safe_nil⟩
    · exact safe_nil

theorem FieldTurn.safe_null {t : FieldTurn σ} {n : Nat} : Safe n (t.accesses n) ↔ t.uses = false := by
  unfold FieldTurn.accesses
  rw [safe_append]
  constructor
  · rintro ⟨-, huses⟩
    cases hu : t.uses with
    | false => rfl
    | true =>
      rw [hu, if_pos rfl, safe_cons] at huses
      exact absurd huses.1 (Nat.lt_irrefl n)
  · intro hu
    refine ⟨?_, ?_⟩
    · split
      · exact safe_cons.mpr ⟨Nat.le_refl n, safe_nil⟩
      · exact safe_nil
    · rw [hu, if_neg (by decide)]
      exact safe_nil

theorem accesses_safe_iff (ptr : List Nat) (i : Nat) (st : σ) :
    Safe (i + ptr.length) (accesses turn i ptr st) ↔ ¬ Unpaired turn ptr st := by
  have hlen : ∀ {key val : Nat} (rest : List Nat), (key :: val :: rest).length = rest.length + 2 := fun _ => rfl
  have hkey : ∀ (i : Nat) (rest : List Nat),
      (Access.entry i).Ok (i + (rest.length + 2)) ∧ (Access.value i).Ok (i + (rest.length + 2)) := by
    intro i rest
    constructor <;> unfold Access.Ok <;> omega
  fun_induction accesses turn i ptr st with
  | case1 i st =>
    rw [safe_cons]
    exact ⟨fun _ => not_unpaired_nil st, fun _ => ⟨Nat.le_refl i, safe_nil⟩⟩
  | case2 i key st =>
    rw [unpaired_singleton, safe_cons, safe_cons, safe_append, List.length_singleton, FieldTurn.safe_null]
    cases hu : (turn st key none).uses <;> cases hn : (turn st key none).next.isSome <;>
      simp [safe_cons, safe_nil, Access.Ok]
  | case3 i key val rest st ih =>
    rw [unpaired_cons_cons, hlen rest, safe_cons, safe_cons, safe_append]
    have hturn : Safe (i + (rest.length + 2)) ((turn st key (some val)).accesses (i + 1)) :=
      FieldTurn.safe_of_lt (by omega)
    cases hnext : (turn st key (some val)).next with
    | none =>
      refine ⟨fun _ => ?_, fun _ => ⟨(hkey i rest).1, (hkey i rest).2, hturn, safe_nil⟩⟩
      rintro ⟨st', h, -⟩
      cases h
    | some st₁ =>
      have hih := ih st₁
      rw [show i + 2 + rest.length = i + (rest.length + 2) by omega] at hih
      constructor
      · rintro ⟨-, -, -, hrest⟩ ⟨st', h, hunpaired⟩
        cases h
        exact hih.mp hrest hunpaired
      · intro hno
        refine ⟨(hkey i rest).1, (hkey i rest).2, hturn, ?_⟩
        exact hih.mpr fun hunpaired => hno ⟨st₁, rfl, hunpaired⟩

end Loop

/-! ## The handlers -/

section Handlers

variable (httpd : Httpd)

def configTurn (st : Parsing) (key : Nat) : Option Nat → FieldTurn Parsing
  | none => ⟨true, false, none⟩
  | some val => ⟨true, true, if strAt st.mem val = [] then none else (configField httpd key val st).toOption⟩

def isRouteKey (key : Str) : Bool := caseEq key (ascii "JVMRoute")

def isListKey (key : Str) : Bool := caseEq key (ascii "Alias") || caseEq key (ascii "Context")

def appField (key val : Nat) (st : Str × Lists) : Option (Str × Lists) :=
  let v := strAt st.2.mem val
  if isRouteKey (strAt st.2.mem key) ∧ v.length ≥ httpd.routeSize then none
  else (processContextAlias key val st.2).toOption.map fun ls =>
    (if isRouteKey (strAt st.2.mem key) then v else st.1, ls)

def appTurn (st : Str × Lists) (key : Nat) (val : Option Nat) : FieldTurn (Str × Lists) :=
  let uses := isRouteKey (strAt st.2.mem key) || isListKey (strAt st.2.mem key)
  match val with
  | none => ⟨true, uses, if uses then none else some st⟩
  | some val => ⟨true, uses, appField httpd key val st⟩

def statusTurn (mem : Mem) (st : StatusArgs) (key : Nat) (val : Option Nat) : FieldTurn StatusArgs :=
  let known := isStatusField (strAt mem key)
  ⟨known, known, val.bind fun val => (statusField httpd (strAt mem key) (strAt mem val) st).toOption⟩

def pingTurn (mem : Mem) (st : PingArgs) (key : Nat) (val : Option Nat) : FieldTurn PingArgs :=
  let known := isPingField (strAt mem key)
  ⟨known, known, val.bind fun val =>
    if strAt mem key = [] then none else (pingField httpd (strAt mem key) (strAt mem val) st).toOption⟩

def configStart (mconf : Mconf) (argv : Argv) : Parsing where
  mem := argv.mem
  node := processConfigNodeDefaults httpd mconf
  balancer := processConfigBalancerDefaults mconf
  contexts := []
  aliases := []

/-- What the field loop of a method touches of its token array. -/
def fieldAccesses (mconf : Mconf) (env : Surroundings) (method : Method) (argv : Argv) : List Access :=
  match method with
  | .config => accesses (configTurn httpd) 0 argv.ptr (configStart httpd mconf argv)
  | .status => accesses (statusTurn httpd argv.mem) 0 argv.ptr ⟨env.stack, -2⟩
  | .ping => accesses (pingTurn httpd argv.mem) 0 argv.ptr ⟨[], none, none, none⟩
  | _ => accesses (appTurn httpd) 0 argv.ptr ([], ⟨argv.mem, [], []⟩)

/-- All pairs before the last token are accepted, and the handler goes for the value
of the last one. -/
def EndsInKey (env : Surroundings) (method : Method) (argv : Argv) : Prop :=
  ∃ before key, argv.ptr = before ++ [key] ∧ match method with
    | .config => False
    | .status => (pairs (statusTurn httpd argv.mem) before ⟨env.stack, -2⟩).isSome ∧ isStatusField (strAt argv.mem key)
    | .ping => (pairs (pingTurn httpd argv.mem) before ⟨[], none, none, none⟩).isSome ∧ isPingField (strAt argv.mem key)
    | _ => (pairs (appTurn httpd) before ([], ⟨argv.mem, [], []⟩)).isSome

end Handlers

section Unpaired

variable {httpd : Httpd} {σ : Type} {turn : σ → Nat → Option Nat → FieldTurn σ}

theorem unpaired_iff {needs : Nat → Prop} {ptr : List Nat} {st : σ}
    (hneeds : ∀ st key, (turn st key none).uses = true ∨ (turn st key none).next.isSome = true ↔ needs key) :
    Unpaired turn ptr st ↔ ∃ before key, ptr = before ++ [key] ∧ (pairs turn before st).isSome = true ∧ needs key := by
  constructor
  · rintro ⟨before, key, st', hptr, hpairs, hbad⟩
    exact ⟨before, key, hptr, by rw [hpairs]; rfl, (hneeds st' key).mp hbad⟩
  · rintro ⟨before, key, hptr, hsome, hkey⟩
    obtain ⟨st', hpairs⟩ := Option.isSome_iff_exists.mp hsome
    exact ⟨before, key, st', hptr, hpairs, (hneeds st' key).mpr hkey⟩

theorem configTurn_needs (st : Parsing) (key : Nat) :
    (configTurn httpd st key none).uses = true ∨ (configTurn httpd st key none).next.isSome = true ↔ False := by
  unfold configTurn
  simp

theorem appTurn_needs (st : Str × Lists) (key : Nat) :
    (appTurn httpd st key none).uses = true ∨ (appTurn httpd st key none).next.isSome = true ↔ True := by
  unfold appTurn
  simp only
  split
  · rename_i huses
    exact ⟨fun _ => trivial, fun _ => Or.inl huses⟩
  · exact ⟨fun _ => trivial, fun _ => Or.inr rfl⟩

theorem statusTurn_needs (mem : Mem) (st : StatusArgs) (key : Nat) :
    (statusTurn httpd mem st key none).uses = true ∨ (statusTurn httpd mem st key none).next.isSome = true ↔
      isStatusField (strAt mem key) = true := by
  unfold statusTurn
  simp

theorem pingTurn_needs (mem : Mem) (st : PingArgs) (key : Nat) :
    (pingTurn httpd mem st key none).uses = true ∨ (pingTurn httpd mem st key none).next.isSome = true ↔
      isPingField (strAt mem key) = true := by
  unfold pingTurn
  simp

end Unpaired

/-! ## The models of the handlers

They end without an outcome exactly where the loop of the source is not safe. -/

section Models

variable {httpd : Httpd}

theorem toOption_ok {α : Type} (st : α) : (Except.ok st : Except McmpError α).toOption = some st := rfl

theorem toOption_error {α : Type} (e : McmpError) : (Except.error e : Except McmpError α).toOption = none := rfl

theorem statusFields_undefined_iff (mem : Mem) (ptr : List Nat) (st : StatusArgs) :
    statusFields httpd mem ptr st = .error .undefined ↔ Unpaired (statusTurn httpd mem) ptr st := by
  fun_induction statusFields httpd mem ptr st with
  | case1 st => simp [not_unpaired_nil]
  | case2 st key hknown => simp [unpaired_singleton, statusTurn, hknown]
  | case3 st key hknown => simp [unpaired_singleton, statusTurn, hknown]
  | case4 key val rest st st' hfield ih => simp [unpaired_cons_cons, statusTurn, hfield, toOption_ok, ih]
  | case5 key val rest st e hfield => simp [unpaired_cons_cons, statusTurn, hfield, toOption_error]

theorem pingFields_undefined_iff (mem : Mem) (ptr : List Nat) (st : PingArgs) :
    pingFields httpd mem ptr st = .error .undefined ↔ Unpaired (pingTurn httpd mem) ptr st := by
  have hempty : isPingField [] = false := by decide
  fun_induction pingFields httpd mem ptr st with
  | case1 st => simp [not_unpaired_nil]
  | case2 st key hkey => simp [unpaired_singleton, pingTurn, hkey, hempty]
  | case3 st key hkey hknown => simp [unpaired_singleton, pingTurn, hknown]
  | case4 st key hkey hknown => simp [unpaired_singleton, pingTurn, hknown]
  | case5 key val rest st hkey => simp [unpaired_cons_cons, pingTurn, hkey]
  | case6 key val rest st hkey st' hfield ih => simp [unpaired_cons_cons, pingTurn, hkey, hfield, toOption_ok, ih]
  | case7 key val rest st hkey e hfield => simp [unpaired_cons_cons, pingTurn, hkey, hfield, toOption_error]

theorem appFields_undefined_iff (ptr : List Nat) (route : Str) (ls : Lists) :
    appFields httpd ptr route ls = .error .undefined ↔ Unpaired (appTurn httpd) ptr (route, ls) := by
  fun_induction appFields httpd ptr route ls with
  | case1 route ls => simp [not_unpaired_nil]
  | case2 key route ls =>
    rw [unpaired_singleton, appTurn_needs]
    simp
  | case3 key val rest route ls isRoute v hbig =>
    have hfield : appField httpd key val (route, ls) = none := if_pos hbig
    simp [unpaired_cons_cons, appTurn, hfield]
  | case4 key val rest route ls isRoute v hsmall ls' hlist ih =>
    have hfield : appField httpd key val (route, ls) = some (if isRoute then v else route, ls') := by
      refine (if_neg hsmall).trans ?_
      simp only [hlist, toOption_ok, Option.map_some]
      rfl
    simp [unpaired_cons_cons, appTurn, hfield, ih]
  | case5 key val rest route ls isRoute v hsmall e hlist =>
    have hfield : appField httpd key val (route, ls) = none := by
      refine (if_neg hsmall).trans ?_
      simp only [hlist, toOption_error, Option.map_none]
    simp [unpaired_cons_cons, appTurn, hfield]

end Models

/-- The field loop of a method stays within the tokens and the NULL behind them, and
does not use the NULL, unless it comes to a last key whose value it needs. -/
theorem fieldAccesses_safe_iff (httpd : Httpd) (mconf : Mconf) (env : Surroundings) (method : Method) (argv : Argv) :
    Safe argv.ptr.length (fieldAccesses httpd mconf env method argv) ↔ ¬ EndsInKey httpd env method argv := by
  have hloop : ∀ {σ : Type} (turn : σ → Nat → Option Nat → FieldTurn σ) (st : σ) (needs : Nat → Prop),
      (∀ st key, (turn st key none).uses = true ∨ (turn st key none).next.isSome = true ↔ needs key) →
      (Safe argv.ptr.length (accesses turn 0 argv.ptr st) ↔
        ¬ ∃ before key, argv.ptr = before ++ [key] ∧ (pairs turn before st).isSome = true ∧ needs key) := by
    intro σ turn st needs hneeds
    have h := @accesses_safe_iff σ turn argv.ptr 0 st
    rw [Nat.zero_add] at h
    rw [h, unpaired_iff hneeds]
  unfold EndsInKey fieldAccesses
  cases method with
  | config =>
    simpa using hloop (configTurn httpd) (configStart httpd mconf argv) _ configTurn_needs
  | status => exact hloop _ _ _ (statusTurn_needs argv.mem)
  | ping => exact hloop _ _ _ (pingTurn_needs argv.mem)
  | enableApp => simpa using hloop (appTurn httpd) ([], ⟨argv.mem, [], []⟩) _ appTurn_needs
  | disableApp => simpa using hloop (appTurn httpd) ([], ⟨argv.mem, [], []⟩) _ appTurn_needs
  | stopApp => simpa using hloop (appTurn httpd) ([], ⟨argv.mem, [], []⟩) _ appTurn_needs
  | removeApp => simpa using hloop (appTurn httpd) ([], ⟨argv.mem, [], []⟩) _ appTurn_needs

/-! ## Messages that end in a key -/

section Example

def aloneSurroundings : Surroundings where
  now := 0
  creatBal := .all
  restartTime := 0
  enableOptions := true
  sslEnable := true
  contact s := ⟨s.status, 0, 0, true⟩
  ajpPing _ _ := true
  stack := default

theorem lastKey_unsafe :
    (∃ argv, processBuff (ascii "JVMRoute" ++ [0]) = some argv ∧
      ¬ Safe argv.ptr.length (fieldAccesses plainHttpd Mconf.default aloneSurroundings .status argv)) ∧
    ∃ argv, processBuff [0] = some argv ∧
      ¬ Safe argv.ptr.length (fieldAccesses plainHttpd Mconf.default aloneSurroundings .enableApp argv) := by
  refine ⟨⟨⟨ascii "JVMRoute" ++ [0], [0]⟩, by decide +kernel, ?_⟩, ⟨⟨[0], [0]⟩, by decide +kernel, ?_⟩⟩
  · exact fun h => Nat.lt_irrefl 1 (h (.value 1) (by decide +kernel))
  · exact fun h => absurd (h (.entry 2) (by decide +kernel)) (Nat.not_succ_le_self 1)

end Example

end ModCluster
