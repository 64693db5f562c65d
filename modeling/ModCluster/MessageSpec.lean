import ModCluster.Message

/-!
# What a message that is accepted has said

The fields a CONFIG message cannot set keep their defaults, both records name the
same balancer, and Host and Port fit their buffers.
-/

open CString

namespace ModCluster

/-! ## An invariant of the loop over the fields -/

/-- A handler that keeps `P` when it is given the value at its offset. -/
def Handler.Preserves (P : Parsing → Prop) (f : Handler) : Prop :=
  ∀ val st st', P st → f (strAt st.mem val) val st = .ok st' → P st'

/-- Reading a list keeps `P`. -/
def ListsPreserve (P : Parsing → Prop) : Prop :=
  ∀ key val st ls, P st →
    processContextAlias key val { mem := st.mem, contexts := st.contexts, aliases := st.aliases } = .ok ls →
    P { st with mem := ls.mem, contexts := ls.contexts, aliases := ls.aliases }

section Invariant

variable {httpd : Httpd} {P : Parsing → Prop} {st st' : Parsing}

theorem runHandler_preserves {handlers : List (Str × Handler)} (hk : ∀ f ∈ handlers, f.2.Preserves P)
    {key val : Nat} (hp : P st) (h : runHandler handlers key val st = .ok st') : P st' := by
  unfold runHandler at h
  split at h
  · rename_i f hf
    exact hk f (List.mem_of_find?_eq_some hf) val st st' hp h
  · cases h
    exact hp

variable (hb : ∀ f ∈ balancerHandlers, f.2.Preserves P) (hn : ∀ f ∈ nodeHandlers httpd, f.2.Preserves P)
  (hl : ListsPreserve P)

include hb hn hl

theorem configField_preserves {key val : Nat} (hp : P st) (h : configField httpd key val st = .ok st') : P st' := by
  unfold configField at h
  split at h
  · cases h
  rename_i st₁ h₁
  split at h
  · cases h
  rename_i st₂ h₂
  have hp₂ : P st₂ := runHandler_preserves hn (runHandler_preserves hb hp h₁) h₂
  split at h
  · cases h
  · rename_i ls hls
    cases h
    exact hl key val st₂ ls hp₂ hls

theorem configFields_preserves (ptr : List Nat) (hp : P st) (h : configFields httpd ptr st = .ok st') : P st' := by
  induction ptr, st using configFields.induct httpd with
  | case1 st =>
    cases h
    exact hp
  | case2 key st => cases h
  | case3 key val rest st hempty => simp [configFields, hempty] at h
  | case4 key val rest st hempty st₁ h₁ ih =>
    simp only [configFields, hempty, if_false, h₁] at h
    exact ih (configField_preserves hb hn hl hp h₁) h
  | case5 key val rest st hempty e he => simp [configFields, hempty, he] at h

end Invariant

/-! ## The two records -/

/-- What holds of the two records of CONFIG after any number of fields. -/
structure FieldsOk (node : Nodemess) (balancer : Balancerinfo) : Prop where
  id : node.id = -1
  remove : node.remove = false
  hasWorkers : node.hasWorkers = 0
  host : node.host.length ≤ HOSTNODESZ - 1
  port : node.port.length ≤ PORTNODESZ - 1
  balancerId : balancer.id = 0
  name : balancer.balancer = node.balancer

theorem stripZone_length (flag : Bool) (s : Str) : (stripZone flag s).length ≤ s.length := by
  induction s generalizing flag with
  | nil => simp [stripZone]
  | cons b rest ih =>
    unfold stripZone
    split
    · have := ih true
      simp only [List.length_cons]
      omega
    · have := ih flag
      simp only [List.length_cons]
      omega

theorem fieldsOk_defaults (httpd : Httpd) (mconf : Mconf) :
    FieldsOk (processConfigNodeDefaults httpd mconf).mess (processConfigBalancerDefaults mconf) where
  id := rfl
  remove := rfl
  hasWorkers := rfl
  host := show (ascii "localhost").length ≤ 63 by decide
  port := show (ascii "8009").length ≤ 6 by decide
  balancerId := rfl
  name := rfl

theorem copyField_ok {st st' : Parsing} {v : Str} {size : Nat} {big : McmpError}
    {set : Nodemess → Nodemess} (h : copyField st v size big set = .ok st') :
    v.length < size ∧ st' = setMess st set := by
  unfold copyField at h
  split at h
  · cases h
  · cases h
    exact ⟨by omega, rfl⟩

theorem timeField_ok {httpd : Httpd} {st st' : Parsing} {v unit : Str} {bad : McmpError}
    {set : Int → Nodemess → Nodemess} (h : timeField httpd st v unit bad set = .ok st') :
    ∃ t, st' = setMess st (set t) := by
  unfold timeField at h
  split at h
  · cases h
    exact ⟨_, rfl⟩
  · cases h

/-- A handler that keeps `FieldsOk`. -/
def Keeps (f : Handler) : Prop :=
  ∀ v val st st', FieldsOk st.node.mess st.balancer → f v val st = .ok st' →
    FieldsOk st'.node.mess st'.balancer

theorem copyField_keeps (size : Nat) (big : McmpError) (set : Str → Nodemess → Nodemess)
    (hset : ∀ v m b, v.length < size → FieldsOk m b → FieldsOk (set v m) b) :
    Keeps fun v _ st => copyField st v size big (set v) := by
  intro v val st st' hok h
  obtain ⟨hlen, rfl⟩ := copyField_ok h
  exact hset v _ _ hlen hok

theorem timeField_keeps (httpd : Httpd) (unit : Str) (bad : McmpError)
    (set : Int → Nodemess → Nodemess) (hset : ∀ t m b, FieldsOk m b → FieldsOk (set t m) b) :
    Keeps fun v _ st => timeField httpd st v unit bad set := by
  intro v val st st' hok h
  obtain ⟨t, rfl⟩ := timeField_ok h
  exact hset t _ _ hok

theorem setMess_keeps (set : Str → Nodemess → Nodemess)
    (hset : ∀ v m b, FieldsOk m b → FieldsOk (set v m) b) :
    Keeps fun v _ st => .ok (setMess st (set v)) := by
  intro v val st st' hok h
  cases h
  exact hset v _ _ hok

theorem setBalancer_keeps (set : Str → Balancerinfo → Balancerinfo)
    (hset : ∀ v m b, FieldsOk m b → FieldsOk m (set v b)) :
    Keeps fun v _ st => .ok (setBalancer st (set v)) := by
  intro v val st st' hok h
  cases h
  exact hset v _ _ hok

theorem balancerHandlers_keep : ∀ f ∈ balancerHandlers, Keeps f.2 := by
  simp only [balancerHandlers, List.forall_mem_cons]
  refine ⟨?_, ?_, ?_, ?_, ?_, ?_, ?_, ?_, by simp⟩
  · -- Balancer
    rintro v val st st' ⟨hid, hrem, hw, hh, hp, hb, hn⟩ h
    simp only at h
    split at h
    · cases h
    · cases h
      exact ⟨hid, hrem, hw, hh, hp, hb, rfl⟩
  · exact setBalancer_keeps _ fun _ _ _ ⟨hid, hrem, hw, hh, hp, hb, hn⟩ => ⟨hid, hrem, hw, hh, hp, hb, hn⟩
  · rintro v val st st' ⟨hid, hrem, hw, hh, hp, hb, hn⟩ h
    simp only at h
    split at h
    · cases h
    · cases h
      exact ⟨hid, hrem, hw, hh, hp, hb, hn⟩
  · rintro v val st st' ⟨hid, hrem, hw, hh, hp, hb, hn⟩ h
    simp only at h
    split at h
    · cases h
    · cases h
      exact ⟨hid, hrem, hw, hh, hp, hb, hn⟩
  all_goals
    exact setBalancer_keeps _ fun _ _ _ ⟨hid, hrem, hw, hh, hp, hb, hn⟩ => ⟨hid, hrem, hw, hh, hp, hb, hn⟩

theorem hostField_keeps :
    Keeps fun v val st => if v.length ≥ HOSTNODESZ then .error .shosbig else .ok (hostField st val v) := by
  rintro v val st st' ⟨hid, hrem, hw, hh, hp, hb, hn⟩ h
  simp only at h
  split at h
  · cases h
  rename_i hlen
  cases h
  have hz := stripZone_length false v
  unfold hostField
  split
  · exact ⟨hid, hrem, hw, by simp only [setMess, HOSTNODESZ] at *; omega, hp, hb, hn⟩
  · exact ⟨hid, hrem, hw, by simp only [setMess, HOSTNODESZ] at *; omega, hp, hb, hn⟩

theorem nodeHandlers_keep (httpd : Httpd) : ∀ f ∈ nodeHandlers httpd, Keeps f.2 := by
  simp only [nodeHandlers, List.forall_mem_cons]
  refine ⟨?_, ?_, hostField_keeps, ?_, ?_, ?_, ?_, ?_, ?_, ?_, ?_, ?_, by simp⟩
  · exact copyField_keeps _ _ _ fun _ _ _ _ ⟨hid, hrem, hw, hh, hp, hb, hn⟩ =>
      ⟨hid, hrem, hw, hh, hp, hb, hn⟩
  · exact copyField_keeps _ _ _ fun _ _ _ _ ⟨hid, hrem, hw, hh, hp, hb, hn⟩ =>
      ⟨hid, hrem, hw, hh, hp, hb, hn⟩
  · -- Port
    exact copyField_keeps _ _ _ fun _ _ _ hlen ⟨hid, hrem, hw, hh, _, hb, hn⟩ =>
      ⟨hid, hrem, hw, hh, Nat.le_pred_of_lt hlen, hb, hn⟩
  · exact copyField_keeps _ _ _ fun _ _ _ _ ⟨hid, hrem, hw, hh, hp, hb, hn⟩ =>
      ⟨hid, hrem, hw, hh, hp, hb, hn⟩
  · exact setMess_keeps _ fun _ _ _ ⟨hid, hrem, hw, hh, hp, hb, hn⟩ => ⟨hid, hrem, hw, hh, hp, hb, hn⟩
  · exact setMess_keeps _ fun _ _ _ ⟨hid, hrem, hw, hh, hp, hb, hn⟩ => ⟨hid, hrem, hw, hh, hp, hb, hn⟩
  · exact timeField_keeps _ _ _ _ fun _ _ _ ⟨hid, hrem, hw, hh, hp, hb, hn⟩ =>
      ⟨hid, hrem, hw, hh, hp, hb, hn⟩
  · exact timeField_keeps _ _ _ _ fun _ _ _ ⟨hid, hrem, hw, hh, hp, hb, hn⟩ =>
      ⟨hid, hrem, hw, hh, hp, hb, hn⟩
  · exact setMess_keeps _ fun _ _ _ ⟨hid, hrem, hw, hh, hp, hb, hn⟩ => ⟨hid, hrem, hw, hh, hp, hb, hn⟩
  all_goals
    exact timeField_keeps _ _ _ _ fun _ _ _ ⟨hid, hrem, hw, hh, hp, hb, hn⟩ =>
      ⟨hid, hrem, hw, hh, hp, hb, hn⟩

theorem Keeps.preserves {f : Handler} (h : Keeps f) :
    f.Preserves fun st => FieldsOk st.node.mess st.balancer :=
  fun val st => h (strAt st.mem val) val st

theorem configFields_fieldsOk {httpd : Httpd} (ptr : List Nat) {st st' : Parsing}
    (hok : FieldsOk st.node.mess st.balancer) (h : configFields httpd ptr st = .ok st') :
    FieldsOk st'.node.mess st'.balancer :=
  configFields_preserves (fun f hf => (balancerHandlers_keep f hf).preserves)
    (fun f hf => (nodeHandlers_keep httpd f hf).preserves) (fun _ _ _ _ hok _ => hok) ptr hok h

theorem nodeExtras_fieldsOk {mconf : Mconf} {m : Nodemess} {b : Balancerinfo} (hok : FieldsOk m b) :
    FieldsOk (nodeExtras mconf m) b := by
  have htype : FieldsOk (typeExtras mconf m) b := by
    obtain ⟨hid, hrem, hw, hh, hp, hb, hn⟩ := hok
    unfold typeExtras
    repeat' split
    all_goals exact ⟨hid, hrem, hw, hh, hp, hb, hn⟩
  obtain ⟨hid, hrem, hw, hh, hp, hb, hn⟩ := htype
  unfold nodeExtras fieldSizeExtra
  split
  all_goals exact ⟨hid, hrem, hw, hh, hp, hb, hn⟩

theorem nodeExtras_jvmRoute (mconf : Mconf) (m : Nodemess) :
    (nodeExtras mconf m).jvmRoute = m.jvmRoute := by
  have htype : (typeExtras mconf m).jvmRoute = m.jvmRoute := by
    unfold typeExtras
    repeat' split
    all_goals rfl
  rw [← htype]
  unfold nodeExtras fieldSizeExtra
  split
  all_goals rfl

/-- What CONFIG knows of its message once the fields have been read. -/
structure ArgsOk (args : ConfigArgs) : Prop extends FieldsOk args.node.mess args.balancer where
  route : args.node.mess.jvmRoute ≠ []
  lists : args.aliases = [] ↔ args.contexts = []

theorem parseConfig_argsOk {httpd : Httpd} {mconf : Mconf} {argv : Argv} {args : ConfigArgs}
    (h : parseConfig httpd mconf argv = .ok args) : ArgsOk args := by
  unfold parseConfig at h
  split at h
  · cases h
  rename_i st hst
  have hok := configFields_fieldsOk argv.ptr (fieldsOk_defaults httpd mconf) hst
  split at h
  · cases h
  split at h
  · cases h
  split at h
  · cases h
  rename_i hroute hali hcon
  cases h
  refine ⟨nodeExtras_fieldsOk hok, ?_, ?_⟩
  · rw [nodeExtras_jvmRoute]
    exact hroute
  · simp only [List.map_eq_nil_iff]
    constructor
    · intro ha
      by_contra hc
      exact hcon ⟨ha, hc⟩
    · intro hc
      by_contra ha
      exact hali ⟨ha, hc⟩

theorem exists_of_map_ok {ε α β : Type} {x : Except ε α} {f : α → β} {b : β} (h : x.map f = .ok b) :
    ∃ a, x = .ok a ∧ f a = b := by
  cases x with
  | error e => cases h
  | ok a =>
    cases h
    exact ⟨a, rfl, rfl⟩

/-! ## Fields that no message sets -/

/-- The fields of a node that only httpd itself writes. -/
structure Nodemess.OwnFields (m : Nodemess) : Prop where
  hasWorkers : m.hasWorkers = 0
  updatetimelb : m.updatetimelb = 0
  numFailureIdle : m.numFailureIdle = 0
  oldelected : m.oldelected = 0
  oldread : m.oldread = 0
  lastcleantry : m.lastcleantry = 0
  numRemoveCheck : m.numRemoveCheck = 0

theorem balancerHandlers_spareOwn : ∀ f ∈ balancerHandlers, f.2.Preserves (·.node.mess.OwnFields) := by
  simp only [balancerHandlers, List.forall_mem_cons]
  refine ⟨?_, ?_, ?_, ?_, ?_, ?_, ?_, ?_, by simp⟩
  all_goals
    rintro val st st' ⟨h₁, h₂, h₃, h₄, h₅, h₆, h₇⟩ h
    simp only at h
  any_goals split at h
  all_goals first
    | cases h
      done
    | cases h
      exact ⟨h₁, h₂, h₃, h₄, h₅, h₆, h₇⟩

theorem hostField_sparesOwn {st : Parsing} (val : Nat) (v : Str) (hown : st.node.mess.OwnFields) :
    (hostField st val v).node.mess.OwnFields := by
  obtain ⟨h₁, h₂, h₃, h₄, h₅, h₆, h₇⟩ := hown
  unfold hostField
  split
  all_goals exact ⟨h₁, h₂, h₃, h₄, h₅, h₆, h₇⟩

theorem nodeHandlers_spareOwn (httpd : Httpd) : ∀ f ∈ nodeHandlers httpd, f.2.Preserves (·.node.mess.OwnFields) := by
  simp only [nodeHandlers, List.forall_mem_cons]
  refine ⟨?_, ?_, ?_, ?_, ?_, ?_, ?_, ?_, ?_, ?_, ?_, ?_, by simp⟩
  all_goals
    rintro val st st' hown h
    simp only at h
  case refine_3 =>
    split at h
    · cases h
    · cases h
      exact hostField_sparesOwn val _ hown
  case refine_1 | refine_2 | refine_4 | refine_5 =>
    obtain ⟨-, rfl⟩ := copyField_ok h
    exact ⟨hown.1, hown.2, hown.3, hown.4, hown.5, hown.6, hown.7⟩
  case refine_8 | refine_9 | refine_11 | refine_12 =>
    obtain ⟨t, rfl⟩ := timeField_ok h
    exact ⟨hown.1, hown.2, hown.3, hown.4, hown.5, hown.6, hown.7⟩
  all_goals
    cases h
    exact ⟨hown.1, hown.2, hown.3, hown.4, hown.5, hown.6, hown.7⟩

theorem nodeExtras_own {mconf : Mconf} {m : Nodemess} (hown : m.OwnFields) : (nodeExtras mconf m).OwnFields := by
  obtain ⟨h₁, h₂, h₃, h₄, h₅, h₆, h₇⟩ := hown
  unfold nodeExtras fieldSizeExtra typeExtras
  repeat' split
  all_goals exact ⟨h₁, h₂, h₃, h₄, h₅, h₆, h₇⟩

/-- A message carries zeros where httpd keeps its own books. -/
theorem parseConfig_own {httpd : Httpd} {mconf : Mconf} {argv : Argv} {args : ConfigArgs}
    (h : parseConfig httpd mconf argv = .ok args) : args.node.mess.OwnFields := by
  unfold parseConfig at h
  split at h
  · cases h
  rename_i st hst
  have hown : st.node.mess.OwnFields :=
    configFields_preserves balancerHandlers_spareOwn (nodeHandlers_spareOwn httpd) (fun _ _ _ _ hown _ => hown)
      argv.ptr ⟨rfl, rfl, rfl, rfl, rfl, rfl, rfl⟩ hst
  split at h
  · cases h
  split at h
  · cases h
  split at h
  · cases h
  cases h
  exact nodeExtras_own hown

end ModCluster
