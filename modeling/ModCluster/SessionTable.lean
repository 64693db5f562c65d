import ModCluster.Watchdog
import ModCluster.Session
import Mathlib.Logic.Relation

/-!
# Session and domain records

The functions of `sessionid.c`, the sessions part of `proxy_cluster_post_request`, and
what removes a record. A record is removed by its id, which is the number of its slot. An
id of 0 asks for a search, and the search is called with the address of a pointer to the
record instead of the record: what it finds is up to the memory there.
-/

open CString Slotmem Slotmem.Table

namespace ModCluster

/-! ## sessionid.c -/

structure Sessionidinfo where
  id : Int
  sessionid : Str
  jvmRoute : Str
  updatetime : Int
deriving DecidableEq, Inhabited

def SESSIONIDSZ : Nat := 128

def TIMESESSIONID : Int := 300

namespace Sessionid

def update (now : Int) (ou inn : Sessionidinfo) : Status × Sessionidinfo × Sessionidinfo :=
  if inn.sessionid == ou.sessionid then
    (.eexist, { inn with id := ou.id, updatetime := aprTimeSec now }, { inn with id := ou.id })
  else (.success, ou, inn)

end Sessionid

def insertUpdateSessionid (now : Int) (m : Table Sessionidinfo) (sessionid : Sessionidinfo) :
    Option (Table Sessionidinfo) :=
  (m.insertUpdate (Sessionid.update now) sessionid fun i =>
    { sessionid with id := i, updatetime := aprTimeSec now }).map (·.1)

def getIdsUsedSessionid (m : Table Sessionidinfo) : List Int :=
  (m.doall (fun ou ids => (.success, ou, ids ++ [ou.id])) []).2.2

/-! ## Removal

`stray` is what is released for a record with the id 0, if anything. -/

section Removal

variable {α : Type}

/-- The id that is given to `release`. -/
def releasedId (idOf : α → Int) (stray : Table α → Option Int) (m : Table α) (a : α) : Option Int :=
  if idOf a ≠ 0 then some (idOf a) else stray m

def removeById (idOf : α → Int) (stray : Table α → Option Int) (m : Table α) (a : α) : Table α :=
  match releasedId idOf stray m a with
  | some id => m.release id
  | none => m

/-- Walk over a list of ids and remove every old record. -/
def removeTimeout [Inhabited α] (idOf : α → Int) (stray : Table α → Option Int) (old : α → Bool) (m : Table α) :
    List Int → Table α
  | [] => m
  | id :: ids =>
    match m.dptr id with
    | some i => removeTimeout idOf stray old (if old (m.peek i) then removeById idOf stray m (m.peek i) else m) ids
    | none => removeTimeout idOf stray old m ids

end Removal

def removeSessionid (stray : Table Sessionidinfo → Option Int) :
    Table Sessionidinfo → Sessionidinfo → Table Sessionidinfo :=
  removeById (·.id) stray

def oldSession (now : Int) (ou : Sessionidinfo) : Bool := ou.updatetime < aprTimeSec now - TIMESESSIONID

def oldDomain (now : Int) (ou : Domaininfo) : Bool := ou.updatetime < aprTimeSec now - TIMEDOMAIN

def removeTimeoutSessionid (stray : Table Sessionidinfo → Option Int) (now : Int) :
    Table Sessionidinfo → List Int → Table Sessionidinfo :=
  removeTimeout (·.id) stray (oldSession now)

/-! ## proxy_cluster_post_request -/

/-- `strncpy(ou, s, n)` without the NUL in the end. `behind` is what is left behind it. -/
def strncpyInto (n : Nat) (s behind : Str) : Str := if s.length < n then s else s.take n ++ behind

/-- The record on the stack with a changed session. The rest of it is not set. -/
def changedSession (ou : Sessionidinfo) (behind sessionid : Str) : Sessionidinfo :=
  { ou with id := -1, sessionid := strncpyInto SESSIONIDSZ sessionid behind }

/-- The cookie has changed: remove the old session. -/
def removeChanged (stray : Table Sessionidinfo → Option Int) (ou : Sessionidinfo) (behind : Str)
    (cookie sessionid : Option Str) (m : Table Sessionidinfo) : Table Sessionidinfo :=
  match cookie, sessionid with
  | some cookie, some sessionid =>
    if cookie ≠ sessionid then removeSessionid stray m (changedSession ou behind sessionid) else m
  | _, _ => m

/-- What the end of a request does to the sessions. `setCookie` is the header of the
response, and `ou` and `behind` are what is left on the stack. -/
def postRequestSession (httpd : Httpd) (stray : Table Sessionidinfo → Option Int) (now : Int) (ou : Sessionidinfo)
    (behind : Str) (setCookie : Option Mem) (balancerSticky : Str) (notes : Notes) (m : Table Sessionidinfo) :
    Table Sessionidinfo :=
  match (match notes.sessionSticky with
    | some sticky => some sticky
    | none => if balancerSticky ≠ [] then some balancerSticky else none) with
  | none => m
  | some sticky =>
    let cookie := getCookieParam setCookie sticky
    let m := removeChanged stray ou behind cookie notes.sessionId m
    let sessionid := if cookie.isSome then cookie else notes.sessionId
    let route := match cookie with
      | some cookie => after (ch '.') cookie
      | none => notes.sessionRoute
    match sessionid, route with
    | some sessionid, some route =>
      let ou := { ou with
        sessionid := strncpyInto SESSIONIDSZ sessionid behind
        jvmRoute := strncpyInto httpd.routeSize route behind }
      (insertUpdateSessionid now m ou).getD m
    | _, _ => m

/-! ## What is released -/

/-- `i` is free and no other slot has changed. -/
def Frees {α : Type} (m m' : Table α) (i : Nat) : Prop :=
  ∀ j, m'.used j = if j = i then none else m.used j

section Removal

variable {α : Type} {idOf : α → Int} {stray : Table α → Option Int} {m : Table α}

theorem used_release (m : Table α) (id : Int) (j : Nat) :
    (m.release id).used j = if id = j then none else m.used j := by
  by_cases hid : 0 ≤ id
  · obtain ⟨i, rfl⟩ := Int.eq_ofNat_of_zero_le hid
    rw [release_ofNat]
    split
    · rename_i heq
      rw [Int.ofNat_inj.1 heq, used_free_self]
    · rename_i hne
      exact used_setInuse_ne false fun heq => hne (congrArg _ heq)
  · have hnone : m.dptr id = none := by
      rw [dptr, if_neg (fun h => hid h.1)]
    rw [release, hnone, if_neg (by omega)]

theorem releasedId_of_ne {a : α} {i : Nat} (hid : idOf a = i) (hne : i ≠ 0) :
    releasedId idOf stray m a = some (i : Int) := by
  rw [releasedId, if_pos (by omega), hid]

theorem releasedId_of_zero {a : α} (hid : idOf a = 0) : releasedId idOf stray m a = stray m := by
  rw [releasedId, if_neg (by omega)]

theorem used_removeById (m : Table α) (a : α) (j : Nat) :
    (removeById idOf stray m a).used j = if releasedId idOf stray m a = some (j : Int) then none else m.used j := by
  unfold removeById
  cases h : releasedId idOf stray m a with
  | none => simp
  | some id => simp [used_release]

theorem removeById_frees_iff {i : Nat} {a : α} (h : m.used i = some a) :
    Frees m (removeById idOf stray m a) i ↔ releasedId idOf stray m a = some (i : Int) := by
  constructor
  · intro hfrees
    have hi := hfrees i
    rw [if_pos rfl, used_removeById] at hi
    by_contra hne
    rw [if_neg hne, h] at hi
    cases hi
  · intro hid j
    rw [used_removeById, hid]
    by_cases hj : j = i
    · rw [if_pos (by rw [hj]), if_pos hj]
    · rw [if_neg (by simpa using Ne.symm hj), if_neg hj]

theorem ids_zero {a : α} (hids : m.IdsMatch idOf) (h : m.used 0 = some a) :
    ∃ ids, m.records.map idOf = 0 :: ids ∧ (0 : Int) ∉ ids := by
  have hsorted := (ids_increase idOf m.slots 0 fun i b hi => by simpa using hids i b (used_eq_some.2 hi)).1
  have heq : m.records.map idOf = (m.slots.filter (·.inuse)).map fun s => idOf s.data := by
    simp [records, Function.comp_def]
  rw [← heq] at hsorted
  have hmem : (0 : Int) ∈ m.records.map idOf := (mem_ids hids).2 ⟨0, a, h, rfl⟩
  have hnonneg : ∀ id ∈ m.records.map idOf, 0 ≤ id := by
    intro id hid
    obtain ⟨i, -, -, rfl⟩ := (mem_ids hids).1 hid
    omega
  cases hlist : m.records.map idOf with
  | nil => rw [hlist] at hmem; cases hmem
  | cons id ids =>
    rw [hlist] at hsorted hmem hnonneg
    obtain ⟨hlt, -⟩ := List.pairwise_cons.1 hsorted
    have hid := hnonneg id (by simp)
    rcases List.mem_cons.1 hmem with rfl | hmem
    · exact ⟨ids, rfl, fun h => absurd (hlt 0 h) (by omega)⟩
    · have := hlt 0 hmem
      omega

theorem used_of_removeById {a b : α} {j : Nat} (h : (removeById idOf stray m a).used j = some b) :
    m.used j = some b := by
  rw [used_removeById] at h
  split at h
  · cases h
  · exact h

/-! ## The walk over all ids -/

variable [Inhabited α] {old : α → Bool}

theorem slot_removeById (m : Table α) (a : α) :
    (removeById idOf stray m a).size = m.size ∧ ∀ j, (removeById idOf stray m a).peek j = m.peek j := by
  unfold removeById release
  split
  · split <;> simp
  · simp

/-- What one turn of the walk leaves. -/
def visit (idOf : α → Int) (stray : Table α → Option Int) (old : α → Bool) (m : Table α) (i : Nat) : Table α :=
  if old (m.peek i) then removeById idOf stray m (m.peek i) else m

theorem removeTimeout_cons {id : Int} {i : Nat} (h : m.dptr id = some i) (ids : List Int) :
    removeTimeout idOf stray old m (id :: ids) = removeTimeout idOf stray old (visit idOf stray old m i) ids := by
  rw [removeTimeout, h]
  rfl

theorem used_of_visit {i j : Nat} {b : α} (h : (visit idOf stray old m i).used j = some b) : m.used j = some b := by
  unfold visit at h
  split at h
  · exact used_of_removeById h
  · exact h

theorem slot_visit (idOf : α → Int) (stray : Table α → Option Int) (old : α → Bool) (m : Table α) (i : Nat) :
    (visit idOf stray old m i).size = m.size ∧ ∀ j, (visit idOf stray old m i).peek j = m.peek j := by
  unfold visit
  split
  · exact slot_removeById m _
  · simp

theorem used_of_removeTimeout {ids : List Int} {j : Nat} {b : α}
    (h : (removeTimeout idOf stray old m ids).used j = some b) : m.used j = some b := by
  induction ids generalizing m with
  | nil => exact h
  | cons id ids ih =>
    cases hid : m.dptr id with
    | none =>
      rw [removeTimeout, hid] at h
      exact ih h
    | some i =>
      rw [removeTimeout_cons hid] at h
      exact used_of_visit (ih h)

theorem removeTimeout_frees {ids : List Int} {i : Nat} (hne : i ≠ 0) (hlt : i < m.size) (hid : idOf (m.peek i) = i)
    (hold : old (m.peek i) = true) (hmem : (i : Int) ∈ ids) : (removeTimeout idOf stray old m ids).used i = none := by
  induction ids generalizing m with
  | nil => cases hmem
  | cons id ids ih =>
    by_cases heq : id = i
    · have hvisit : (visit idOf stray old m i).used i = none := by
        rw [visit, if_pos hold, used_removeById, releasedId_of_ne hid hne, if_pos rfl]
      rw [heq, removeTimeout_cons (dptr_ofNat hlt), Option.eq_none_iff_forall_ne_some]
      intro b hb
      rw [used_of_removeTimeout hb] at hvisit
      cases hvisit
    · have hmem : (i : Int) ∈ ids := by
        rcases List.mem_cons.1 hmem with h | h
        · exact (heq h.symm).elim
        · exact h
      cases hptr : m.dptr id with
      | none =>
        rw [removeTimeout, hptr]
        exact ih hlt hid hold hmem
      | some k =>
        obtain ⟨hsize, hpeek⟩ := slot_visit idOf stray old m k
        rw [removeTimeout_cons hptr]
        exact ih (by rw [hsize]; exact hlt) (by rw [hpeek]; exact hid) (by rw [hpeek]; exact hold) hmem

theorem removeTimeout_zero {ids : List Int}
    (hids : ∀ id ∈ ids, ∃ i : Nat, id = i ∧ i ≠ 0 ∧ i < m.size ∧ idOf (m.peek i) = i) :
    (removeTimeout idOf stray old m ids).used 0 = m.used 0 := by
  induction ids generalizing m with
  | nil => rfl
  | cons id ids ih =>
    obtain ⟨i, rfl, hne, hlt, hid⟩ := hids id (by simp)
    obtain ⟨hsize, hpeek⟩ := slot_visit idOf stray old m i
    rw [removeTimeout_cons (dptr_ofNat hlt), ih]
    · unfold visit
      split
      · rw [used_removeById, releasedId_of_ne hid hne, if_neg]
        simpa using hne
      · rfl
    · intro id hmem
      simp only [hsize, hpeek]
      exact hids id (by simp [hmem])

theorem removeTimeout_clean_iff (hids : m.IdsMatch idOf) :
    (∀ i a, (removeTimeout idOf stray old m (m.records.map idOf)).used i = some a → old a = false) ↔
      ∀ a, m.used 0 = some a → old a = true → stray m = some 0 := by
  constructor
  · intro hclean a ha hold
    obtain ⟨ids, hlist, hnotMem⟩ := ids_zero hids ha
    by_contra hstray
    have hid : idOf (m.peek 0) = 0 := by simpa [peek_of_used ha] using hids 0 a ha
    have hvisit : (visit idOf stray old m 0).used 0 = some a := by
      unfold visit
      split
      · rw [used_removeById, releasedId_of_zero hid, if_neg (by simpa using hstray), ha]
      · exact ha
    obtain ⟨hsize, hpeek⟩ := slot_visit idOf stray old m 0
    have hzero : m.dptr 0 = some 0 := dptr_ofNat (used_lt ha)
    have hkept : (removeTimeout idOf stray old m (m.records.map idOf)).used 0 = some a := by
      rw [hlist, removeTimeout_cons hzero, removeTimeout_zero, hvisit]
      intro id hmem
      have hall : id ∈ m.records.map idOf := by simp [hlist, hmem]
      obtain ⟨i, b, hb, rfl⟩ := (mem_ids hids).1 hall
      refine ⟨i, rfl, ?_, ?_, ?_⟩
      · rintro rfl
        exact hnotMem hmem
      · rw [hsize]
        exact used_lt hb
      · rw [hpeek, peek_of_used hb]
        exact hids i b hb
    rw [hclean 0 a hkept] at hold
    cases hold
  · intro hzero i a hi
    have ha := used_of_removeTimeout hi
    have hid : idOf (m.peek i) = i := by rw [peek_of_used ha]; exact hids i a ha
    by_contra hold
    have hold : old a = true := by simpa using hold
    have hpeek : old (m.peek i) = true := by rw [peek_of_used ha]; exact hold
    have hnone : (removeTimeout idOf stray old m (m.records.map idOf)).used i = none := by
      by_cases hne : i = 0
      · subst hne
        obtain ⟨ids, hlist, -⟩ := ids_zero hids ha
        have hvisit : (visit idOf stray old m 0).used 0 = none := by
          rw [visit, if_pos hpeek, used_removeById, releasedId_of_zero hid, hzero a ha hold, Int.ofNat_zero, if_pos rfl]
        have hptr : m.dptr 0 = some 0 := dptr_ofNat (used_lt ha)
        rw [hlist, removeTimeout_cons hptr, Option.eq_none_iff_forall_ne_some]
        intro b hb
        rw [used_of_removeTimeout hb] at hvisit
        cases hvisit
      · exact removeTimeout_frees hne (used_lt ha) hid hpeek ((mem_ids hids).2 ⟨i, a, ha, rfl⟩)
    rw [hnone] at hi
    cases hi

end Removal

/-! ## The ids of a table -/

section Ids

variable {α : Type} {idOf : α → Int}

theorem insertUpdate_ids {σ : Type} {f : α → σ → Status × α × σ} {p : α → Bool} {g : α → α} {h : α → σ} {st st' : σ}
    {fresh : Nat → α} {m m' : Table α} (hids : m.IdsMatch idOf)
    (hf : ∀ a, f a st = if p a then (.eexist, g a, h a) else (.success, a, st)) (hg : ∀ a, idOf (g a) = idOf a)
    (hfresh : ∀ i : Nat, idOf (fresh i) = i) (hr : m.insertUpdate f st fresh = some (m', st')) : m'.IdsMatch idOf := by
  rcases insertUpdate_cases hf hr with ⟨i, a, -, ha, rfl, -⟩ | ⟨i, -, -, -, rfl, -⟩
  · apply hids.poke
    intro b hb
    rw [hg, Option.some.inj (ha.symm.trans hb)]
  · exact hids.store (hfresh i)

variable [Inhabited α]

/-- What is done to a table of sessions or of domains. -/
inductive RecordStep (idOf : α → Int) (insert : Int → Table α → α → Option (Table α)) : Table α → Table α → Prop
  | inserted {m m' : Table α} (now : Int) (a : α) (h : insert now m a = some m') : RecordStep idOf insert m m'
  | removed (m : Table α) (stray : Table α → Option Int) (a : α) :
    RecordStep idOf insert m (removeById idOf stray m a)
  | swept (m : Table α) (stray : Table α → Option Int) (old : α → Bool) (ids : List Int) :
    RecordStep idOf insert m (removeTimeout idOf stray old m ids)

/-- In every table that the program has made of an empty one, the ids are the slot numbers. -/
theorem records_ids {insert : Int → Table α → α → Option (Table α)} {n : Nat} {m : Table α}
    (hinsert : ∀ {now a m m'}, insert now m a = some m' → m.IdsMatch idOf → m'.IdsMatch idOf)
    (h : Relation.ReflTransGen (RecordStep idOf insert) (Table.empty n) m) : m.IdsMatch idOf := by
  induction h with
  | refl =>
    intro i a ha
    rw [used_empty] at ha
    cases ha
  | tail _ hstep ih =>
    cases hstep with
    | inserted now a hins => exact hinsert hins ih
    | removed stray a => exact fun i b hb => ih i b (used_of_removeById hb)
    | swept stray old ids => exact fun i b hb => ih i b (used_of_removeTimeout hb)

end Ids

theorem Sessionid.update_eq (now : Int) (inn ou : Sessionidinfo) :
    Sessionid.update now ou inn =
      if inn.sessionid == ou.sessionid then
        (.eexist, { inn with id := ou.id, updatetime := aprTimeSec now }, { inn with id := ou.id })
      else (.success, ou, inn) := rfl

theorem Domain.update_eq (now : Int) (inn ou : Domaininfo) :
    Domain.update now ou inn =
      if inn.jvmRoute == ou.jvmRoute && inn.balancer == ou.balancer then
        (.eexist, { inn with id := ou.id, updatetime := aprTimeSec now }, { inn with id := ou.id })
      else (.success, ou, inn) := rfl

theorem insertUpdateSessionid_ids {now : Int} {a : Sessionidinfo} {m m' : Table Sessionidinfo}
    (hins : insertUpdateSessionid now m a = some m') (h : m.IdsMatch (·.id)) : m'.IdsMatch (·.id) := by
  obtain ⟨⟨m₁, b⟩, hr, rfl⟩ := Option.map_eq_some_iff.1 hins
  exact insertUpdate_ids h (Sessionid.update_eq now a) (fun _ => rfl) (fun _ => rfl) hr

theorem insertUpdateDomain_ids {now : Int} {a : Domaininfo} {m m' : Table Domaininfo}
    (hins : insertUpdateDomain now m a = some m') (h : m.IdsMatch (·.id)) : m'.IdsMatch (·.id) := by
  obtain ⟨⟨m₁, b⟩, hr, rfl⟩ := Option.map_eq_some_iff.1 hins
  exact insertUpdate_ids h (Domain.update_eq now a) (fun _ => rfl) (fun _ => rfl) hr

theorem removeDomain_eq (stray : Table Domaininfo → Option Int) (m : Table Domaininfo) (ou : Domaininfo) :
    removeDomain stray m ou = removeById (·.id) stray m ou := by
  unfold removeDomain removeById releasedId
  split
  · rfl
  · rfl

theorem removeTimeoutDomain_eq (httpd : Httpd) (now : Int) (m : Table Domaininfo) (ids : List Int) :
    removeTimeoutDomain httpd now m ids = removeTimeout (·.id) httpd.strayDomain (oldDomain now) m ids := by
  induction ids generalizing m with
  | nil => rfl
  | cons id ids ih =>
    unfold removeTimeoutDomain removeTimeout
    cases m.dptr id with
    | none => exact ih m
    | some i =>
      simp only [ih, removeDomain_eq, oldDomain, decide_eq_true_eq]

theorem getIdsUsedSessionid_eq (m : Table Sessionidinfo) : getIdsUsedSessionid m = m.records.map (·.id) := by
  rw [getIdsUsedSessionid, doall_collect]

theorem getIdsUsedDomain_eq (m : Table Domaininfo) : getIdsUsedDomain m = m.records.map (·.id) := by
  rw [getIdsUsedDomain, doall_collect]

/-! ## When records are freed -/

/-- The slots whose records satisfy `p` are free and no other slot has changed. -/
def FreesAll {α : Type} (m m' : Table α) (p : α → Bool) : Prop :=
  ∀ j, m'.used j = (m.used j).filter fun a => !p a

theorem removeById_frees {α : Type} [Inhabited α] {idOf : α → Int} {stray : Table α → Option Int} {m : Table α}
    {i : Nat} {a : α} (h : m.used i = some a) :
    Frees m (removeById idOf stray m a) i ↔ (idOf a = i ∧ i ≠ 0) ∨ (idOf a = 0 ∧ stray m = some (i : Int)) := by
  rw [removeById_frees_iff h]
  by_cases hzero : idOf a = 0
  · rw [releasedId_of_zero hzero]
    simp only [hzero, true_and, iff_or_self]
    omega
  · rw [releasedId, if_pos hzero]
    simp only [hzero, false_and, or_false, Option.some.injEq, iff_self_and]
    omega

theorem removeChanged_eq (stray : Table Sessionidinfo → Option Int) (ou : Sessionidinfo) (behind : Str)
    (cookie sessionid : Option Str) (m : Table Sessionidinfo) :
    removeChanged stray ou behind cookie sessionid m = m := by
  unfold removeChanged
  split
  · split
    · rfl
    · rfl
  · rfl

theorem postRequestSession_steps {httpd : Httpd} {stray : Table Sessionidinfo → Option Int} {now : Int}
    {ou : Sessionidinfo} {behind : Str} {setCookie : Option Mem} {balancerSticky : Str} {notes : Notes}
    {m : Table Sessionidinfo} : Relation.ReflTransGen (RecordStep (·.id) insertUpdateSessionid) m
      (postRequestSession httpd stray now ou behind setCookie balancerSticky notes m) := by
  unfold postRequestSession
  simp only [removeChanged_eq]
  split
  · exact .refl
  split
  · rename_i sessionid route hsession hroute
    cases hins : insertUpdateSessionid now m { ou with
        sessionid := strncpyInto SESSIONIDSZ sessionid behind
        jvmRoute := strncpyInto httpd.routeSize route behind } with
    | none => exact .refl
    | some m' => exact .single (.inserted now _ hins)
  · exact .refl

/-- In the tables that requests and watchdogs have made of empty ones a walk over all ids
leaves no old record, but for one in slot 0. -/
theorem stored_sweeps {httpd : Httpd} {stray : Table Sessionidinfo → Option Int} {now : Int} {n k : Nat}
    {m : Table Sessionidinfo} {d : Table Domaininfo}
    (hm : Relation.ReflTransGen (RecordStep (·.id) insertUpdateSessionid) (Table.empty n) m)
    (hd : Relation.ReflTransGen (RecordStep (·.id) insertUpdateDomain) (Table.empty k) d) :
    (m.IdsMatch (·.id) ∧
      ((∀ i a, (removeTimeoutSessionid stray now m (getIdsUsedSessionid m)).used i = some a →
          oldSession now a = false) ↔
        ∀ a, m.used 0 = some a → oldSession now a = true → stray m = some 0)) ∧
    d.IdsMatch (·.id) ∧
      ((∀ i a, (removeTimeoutDomain httpd now d (getIdsUsedDomain d)).used i = some a → oldDomain now a = false) ↔
        ∀ a, d.used 0 = some a → oldDomain now a = true → httpd.strayDomain d = some 0) := by
  have hm' : m.IdsMatch (·.id) := records_ids insertUpdateSessionid_ids hm
  have hd' : d.IdsMatch (·.id) := records_ids insertUpdateDomain_ids hd
  rw [getIdsUsedSessionid_eq, getIdsUsedDomain_eq, removeTimeoutDomain_eq]
  exact ⟨⟨hm', removeTimeout_clean_iff hm'⟩, hd', removeTimeout_clean_iff hd'⟩

/-- Slot 0 is only freed by chance, and a changed session never. All else is freed as it
should be. -/
theorem records_freed_iff (httpd : Httpd) (stray : Table Sessionidinfo → Option Int) (now : Int) :
    (∀ (m : Table Sessionidinfo) (i : Nat) a, m.used i = some a →
      (Frees m (removeSessionid stray m a) i ↔ (a.id = i ∧ i ≠ 0) ∨ (a.id = 0 ∧ stray m = some (i : Int)))) ∧
    (∀ (m : Table Domaininfo) (i : Nat) a, m.used i = some a →
      (Frees m (removeDomain httpd.strayDomain m a) i ↔
        (a.id = i ∧ i ≠ 0) ∨ (a.id = 0 ∧ httpd.strayDomain m = some (i : Int)))) ∧
    (∀ m : Table Sessionidinfo, m.IdsMatch (·.id) →
      ((∀ i a, (removeTimeoutSessionid stray now m (getIdsUsedSessionid m)).used i = some a →
          oldSession now a = false) ↔
        ∀ a, m.used 0 = some a → oldSession now a = true → stray m = some 0)) ∧
    (∀ m : Table Domaininfo, m.IdsMatch (·.id) →
      ((∀ i a, (removeTimeoutDomain httpd now m (getIdsUsedDomain m)).used i = some a → oldDomain now a = false) ↔
        ∀ a, m.used 0 = some a → oldDomain now a = true → httpd.strayDomain m = some 0)) ∧
    ∀ (m : Table Sessionidinfo) (ou : Sessionidinfo) (behind cookie sessionid : Str), cookie ≠ sessionid →
      (FreesAll m (removeChanged stray ou behind (some cookie) (some sessionid) m)
          (·.sessionid == (changedSession ou behind sessionid).sessionid) ↔
        ∀ i a, m.used i = some a → a.sessionid ≠ (changedSession ou behind sessionid).sessionid) := by
  refine ⟨fun m i a h => removeById_frees h, ?_, ?_, ?_, ?_⟩
  · intro m i a h
    rw [removeDomain_eq]
    exact removeById_frees h
  · intro m hids
    rw [getIdsUsedSessionid_eq]
    exact removeTimeout_clean_iff hids
  · intro m hids
    rw [getIdsUsedDomain_eq, removeTimeoutDomain_eq]
    exact removeTimeout_clean_iff hids
  · intro m ou behind cookie sessionid _
    rw [removeChanged_eq]
    constructor
    · intro hfrees i a ha heq
      have hi := hfrees i
      simp [ha, heq, Option.filter] at hi
    · intro hnone i
      cases hi : m.used i with
      | none => rfl
      | some a => simp [hnone i a hi, Option.filter]

/-! ## The first session -/

def firstSession : Sessionidinfo where
  id := 0
  sessionid := ascii "s.n1"
  jvmRoute := ascii "n1"
  updatetime := 0

def firstSessions : Table Sessionidinfo := ⟨[⟨true, firstSession⟩]⟩

/-- It is in slot 0: it is neither removed by its record, nor by its age, nor by its
string. -/
theorem first_session_stays :
    firstSessions.used 0 = some firstSession ∧
      ¬ Frees firstSessions (removeSessionid (fun _ => none) firstSessions firstSession) 0 ∧
      (removeTimeoutSessionid (fun _ => none) 301000000 firstSessions (getIdsUsedSessionid firstSessions)).used 0 =
        some firstSession ∧
      oldSession 301000000 firstSession = true ∧
      ¬ FreesAll firstSessions
        (removeChanged (fun _ => none) default [] (some (ascii "t.n1")) (some (ascii "s.n1")) firstSessions)
        (·.sessionid == ascii "s.n1") := by
  refine ⟨rfl, ?_, by decide, by decide, ?_⟩
  · intro h
    exact absurd (h 0) (by decide)
  · intro h
    exact absurd (h 0) (by decide)

end ModCluster
