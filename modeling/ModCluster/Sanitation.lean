import ModCluster.Decoding
import ModCluster.PageDomain
import ModCluster.Receive
import ModCluster.Run
import ModCluster.Spelling

/-!
# What keeps markup out of the tables

`decodeenc` refuses the characters that would end a string or a tag on the pages. What
does not come through `decodeenc` is not checked: the query of the manager page, and the
bytes of a body behind a NUL.
-/

open CString Slotmem Slotmem.Table

namespace ModCluster

variable {httpd : Httpd} {A : Alphabet}

/-! ## Bodies -/

/-- The message is one that came in and was decoded. -/
def SentAs (httpd : Httpd) (input : Input) (argv : Argv) : Prop :=
  ∃ conf method, receiveArgv httpd conf method input = .ok argv

theorem receive_message {conf : BufferConf} {method : Str} {input : Input} {buff : Mem}
    (h : (receive httpd conf method input).message = .ok buff) :
    ∃ text k, text <+: input.body ∧ buff = text ++ 0 :: List.replicate k 0 := by
  have hfinish : ∀ {max : Nat} {text : Str}, ((Reading.of max text).finish method).message = .ok buff →
      ∃ k, buff = text ++ 0 :: List.replicate k 0 := by
    intro max text h
    cases h
    refine ⟨max - text.length - 1, ?_⟩
    show List.take text.length (text ++ List.replicate (max - text.length) 0) ++ [0] ++
      List.drop (text.length + 1) (text ++ List.replicate (max - text.length) 0) = _
    rw [List.take_left, ← List.drop_drop, List.drop_left, List.drop_replicate, List.append_assoc, List.singleton_append]
  have hgap : input.beforeGap.flatten <+: input.body := by
    rw [body_split]
    exact List.prefix_append _ _
  by_cases hfits : input.beforeGap.flatten.length < maxbufsiz httpd conf
  · rw [receive_fits hfits] at h
    split at h
    · cases h
    · obtain ⟨k, hk⟩ := hfinish h
      exact ⟨_, k, hgap, hk⟩
  · have hfull : maxbufsiz httpd conf ≤ ([] : Str).length + input.beforeGap.flatten.length :=
      Nat.le_trans (Nat.le_of_not_lt hfits) (Nat.le_add_left _ _)
    rw [receive_eq, readBody_full maxbufsiz_pos hfull, List.nil_append] at h
    obtain ⟨k, hk⟩ := hfinish h
    exact ⟨_, k, (List.take_prefix _ _).trans hgap, hk⟩

/-- What stands behind the first NUL of a body is never decoded. -/
def Input.behindNul (input : Input) : Str := input.body.dropWhile (· != 0)

theorem dropWhile_nul_mono {s t : Str} (h : s <+: t) : s.dropWhile (· != 0) <+: t.dropWhile (· != 0) := by
  obtain ⟨r, rfl⟩ := h
  induction s with
  | nil => exact List.nil_prefix
  | cons b s ih =>
    by_cases hb : b = 0
    · subst hb
      exact List.prefix_append _ _
    · rw [List.cons_append, List.dropWhile_cons_of_pos (by simpa using hb),
        List.dropWhile_cons_of_pos (by simpa using hb)]
      exact ih

theorem SentAs.bytes {input : Input} {argv : Argv} (h : SentAs httpd input argv) :
    ∀ b ∈ argv.mem, isForbidden b = false ∨ b ∈ input.behindNul := by
  obtain ⟨conf, method, h⟩ := h
  unfold receiveArgv at h
  split at h
  · cases h
  rename_i buff hbuff
  obtain ⟨text, k, hpre, rfl⟩ := receive_message hbuff
  split at h
  · rename_i argv' hproc
    cases h
    have hnul : 0 ∉ text.takeWhile (· != 0) := by
      intro hmem
      have := List.mem_takeWhile_imp hmem
      simp at this
    -- The text up to its first NUL, and what comes behind that.
    obtain ⟨behind, hsplit, hbehind⟩ : ∃ behind, text ++ 0 :: List.replicate k 0 = text.takeWhile (· != 0) ++ 0 :: behind ∧
        ∀ b ∈ behind, b = 0 ∨ b ∈ text.dropWhile (· != 0) := by
      cases hd : text.dropWhile (· != 0) with
      | nil =>
        refine ⟨List.replicate k 0, ?_, fun b hb => Or.inl (List.eq_of_mem_replicate hb)⟩
        have htext := List.takeWhile_append_dropWhile (p := (· != 0)) (l := text)
        rw [hd, List.append_nil] at htext
        rw [htext]
      | cons c rest =>
        have hc : c = 0 := by
          have hne : text.dropWhile (· != 0) ≠ [] := by
            rw [hd]
            exact List.cons_ne_nil _ _
          have hhead := List.head_dropWhile_not (· != 0) hne
          simp only [hd, List.head_cons] at hhead
          simpa using hhead
        refine ⟨rest ++ 0 :: List.replicate k 0, ?_, fun b hb => ?_⟩
        · have htext := List.takeWhile_append_dropWhile (p := (· != 0)) (l := text)
          rw [hd, hc] at htext
          conv_lhs => rw [← htext]
          simp
        · rcases List.mem_append.mp hb with hb | hb
          · exact Or.inr (List.mem_cons_of_mem _ hb)
          · rcases List.mem_cons.mp hb with hb | hb
            · exact Or.inl hb
            · exact Or.inl (List.eq_of_mem_replicate hb)
    rw [hsplit] at hproc
    intro b hb
    rcases (processBuff_tokensAt hnul hproc).2 b hb with hb | hb
    · exact Or.inl hb
    · rcases hbehind b hb with rfl | hb
      · exact Or.inl (by decide)
      · exact Or.inr ((dropWhile_nul_mono hpre).subset hb)
  · cases h

/-! ## Queries -/

/-- What `ap_unescape_url` leaves of a text, and what it found wrong with it. -/
structure Unescaped where
  text : Str
  badesc : Bool
  badpath : Bool
deriving DecidableEq

/-- A percent sign that no two digits follow stays. A NUL or a slash is decoded, too. -/
def unescape (skip : Nat) : Str → Unescaped
  | [] => ⟨[], false, false⟩
  | b :: rest =>
    match skip with
    | n + 1 => unescape n rest
    | 0 =>
      let c := decodeChar b rest
      let u := unescape c.2 rest
      ⟨c.1 :: u.text, u.badesc || (b == ch '%' && c.2 == 0), u.badpath || (c.2 == 2 && (c.1 == 0 || c.1 == ch '/'))⟩

theorem unescape_plain {s : Str} (h : ch '%' ∉ s) : unescape 0 s = ⟨s, false, false⟩ := by
  induction s with
  | nil => rfl
  | cons b rest ih =>
    have hb : b ≠ ch '%' := fun heq => h (heq ▸ List.mem_cons_self)
    have hbeq : (b == ch '%') = false := beq_eq_false_iff_ne.mpr hb
    rw [unescape, decodeChar_plain hb, ih fun hmem => h (List.mem_cons_of_mem _ hmem)]
    simp [hbeq]

def apUnescapeUrl : Unescaper where
  run s :=
    ((unescape 0 s).text,
      if (unescape 0 s).badesc then HTTP_BAD_REQUEST else if (unescape 0 s).badpath then HTTP_NOT_FOUND else OK)
  plain s h := by
    rw [unescape_plain h]
    rfl

/-- The table of parameters that the page works with, and the memory it points into. -/
def pageTable (u : Unescaper) (conf : PageConf) (args : Str) (behind : Mem) : Option (Mem × List Entry) :=
  match parseArgs u (args.length + 1) args with
  | .error _ => none
  | .ok params =>
    let mem := argsMem args params behind
    let entries := (paramEntries 0 params).foldl (aprTableSetn mem) []
    some (mem, if conf.nonce ∧ aprTableGet mem entries (ascii "nonce") ≠ some conf.balancerNonce then [] else entries)

theorem managerInfo_tables (u : Unescaper) (conf : PageConf) (now : Int) (ts : Tables) (filename args : Str)
    (behind : Mem) :
    (managerInfo httpd u conf now ts filename (some args) behind).tables =
      match pageTable u conf args behind with
      | none => ts
      | some t => (processParams httpd conf now ts filename t.1 t.2).1 := by
  unfold managerInfo pageTable
  simp only
  cases parseArgs u (args.length + 1) args with
  | error status => rfl
  | ok params => rfl

/-! ### Where the parameters lie -/

theorem byteAt_append (a m : Mem) (p : Nat) : byteAt (a ++ m) (a.length + p) = byteAt m p := by
  unfold byteAt
  rw [List.getD_eq_getElem?_getD, List.getD_eq_getElem?_getD, List.getElem?_append_right (Nat.le_add_right _ _),
    Nat.add_sub_cancel_left]

/-- A key lies before its value, and the value ends before `stop`. -/
structure Entry.InOrder (mem : Mem) (start stop : Nat) (e : Entry) : Prop where
  start : start ≤ e.key
  key : e.key + (strAt mem e.key).length < e.val
  stop : e.val + (strAt mem e.val).length < stop

theorem param_inOrder (p : Param) (pre rest : Mem) :
    Entry.InOrder (pre ++ (p.mem ++ rest)) pre.length (pre.length + p.mem.length)
      ⟨pre.length, pre.length + p.key.length + 1⟩ := by
  have hmem : pre ++ (p.mem ++ rest) =
      (pre ++ p.key) ++ 0 :: (p.val ++ 0 :: ((p.raw ++ [0]).drop (p.val.length + 1) ++ rest)) := by
    simp [Param.mem, write]
  have hmem' : pre ++ (p.mem ++ rest) =
      (pre ++ p.key ++ 0 :: p.val) ++ 0 :: ((p.raw ++ [0]).drop (p.val.length + 1) ++ rest) := by
    simp [Param.mem, write]
  have hkey : byteAt (pre ++ (p.mem ++ rest)) (pre.length + p.key.length) = 0 := by
    have hat := byteAt_append (pre ++ p.key) (0 :: (p.val ++ 0 :: ((p.raw ++ [0]).drop (p.val.length + 1) ++ rest))) 0
    rw [← hmem, List.length_append] at hat
    exact hat
  have hval : byteAt (pre ++ (p.mem ++ rest)) (pre.length + p.key.length + 1 + p.val.length) = 0 := by
    have hat := byteAt_append (pre ++ p.key ++ 0 :: p.val) (0 :: ((p.raw ++ [0]).drop (p.val.length + 1) ++ rest)) 0
    rw [← hmem'] at hat
    simp only [List.length_append, List.length_cons, Nat.add_zero] at hat
    rw [show pre.length + p.key.length + 1 + p.val.length = pre.length + p.key.length + (p.val.length + 1) by omega]
    exact hat
  have hlen : p.key.length + 1 + (p.val.length + 1) ≤ p.mem.length := by
    simp only [Param.mem, write, List.length_append, List.length_singleton, List.take_zero, List.length_nil]
    omega
  have hk := strAt_length_le (Nat.le_add_right pre.length p.key.length) hkey
  have hv := strAt_length_le (Nat.le_add_right (pre.length + p.key.length + 1) p.val.length) hval
  refine ⟨Nat.le_refl _, Nat.lt_succ_of_le hk, ?_⟩
  simp only
  omega

theorem paramEntries_inOrder (params : List Param) (pre behind : Mem) :
    (∀ e ∈ paramEntries pre.length params,
      e.InOrder (pre ++ (params.flatMap Param.mem ++ behind)) pre.length
        (pre.length + (params.flatMap Param.mem).length)) ∧
    (paramEntries pre.length params).Pairwise fun e e' =>
      e.val + (strAt (pre ++ (params.flatMap Param.mem ++ behind)) e.val).length < e'.key := by
  induction params generalizing pre with
  | nil => exact ⟨nofun, List.Pairwise.nil⟩
  | cons p params ih =>
    have hmem : pre ++ ((p :: params).flatMap Param.mem ++ behind) =
        (pre ++ p.mem) ++ (params.flatMap Param.mem ++ behind) := by
      simp
    have hlen : (pre ++ p.mem).length = pre.length + p.mem.length := List.length_append
    have hfirst := param_inOrder p pre (params.flatMap Param.mem ++ behind)
    rw [← List.append_assoc, ← hmem] at hfirst
    obtain ⟨hrest, hpair⟩ := ih (pre ++ p.mem)
    rw [← hmem, hlen] at hrest hpair
    rw [List.flatMap_cons, List.length_append] at *
    refine ⟨List.forall_mem_cons.mpr ⟨⟨hfirst.start, hfirst.key, ?_⟩, fun e he => ?_⟩, List.pairwise_cons.mpr ⟨fun e he => ?_, hpair⟩⟩
    · have := hfirst.stop
      omega
    · have h := hrest e he
      exact ⟨Nat.le_trans (Nat.le_add_right _ _) h.start, h.key, by have := h.stop; omega⟩
    · have h := (hrest e he).start
      have := hfirst.stop
      omega

/-! ### The lists of a page -/

/-- The aliases and contexts that the parameters name, of the alphabet and with no list
that ends in a comma. -/
def ListsKept (A : Alphabet) (mem : Mem) (entries : List Entry) : Prop :=
  ∀ e ∈ entries, isListKey (strAt mem e.key) = true →
    A.Spells (strAt mem e.val) ∧ ¬ EndsInComma (strAt mem e.val)

theorem endsInComma_byteAt {m : Mem} {s : Nat} (h : ¬ EndsInComma (strAt m s)) :
    s = s + (strAt m s).length ∨ byteAt m (s + (strAt m s).length - 1) ≠ ch ',' := by
  by_cases hnil : strAt m s = []
  · rw [hnil]
    exact Or.inl rfl
  · right
    intro heq
    obtain ⟨tail, htail⟩ : strAt m s <+: m.drop s := List.takeWhile_prefix _
    have hlen : 0 < (strAt m s).length := List.length_pos_iff.mpr hnil
    have hat := byteAt_drop m s ((strAt m s).length - 1)
    rw [show s + ((strAt m s).length - 1) = s + (strAt m s).length - 1 by omega, heq, ← htail] at hat
    apply h
    unfold EndsInComma
    unfold byteAt at hat
    rw [List.getD_eq_getElem?_getD, List.getElem?_append_left (by omega)] at hat
    rw [List.getLast?_eq_getElem?]
    cases hget : (strAt m s)[(strAt m s).length - 1]? with
    | none =>
      rw [hget] at hat
      exact absurd hat (by decide)
    | some b =>
      rw [hget] at hat
      exact congrArg some hat

theorem aprTableSetn_from {mem : Mem} (xs : List Entry) (e : Entry) :
    ∀ x ∈ aprTableSetn mem xs e, (∃ y ∈ e :: xs, x.key = y.key) ∧ ∃ y ∈ e :: xs, x.val = y.val := by
  induction xs with
  | nil =>
    intro x hx
    rw [aprTableSetn, List.mem_singleton] at hx
    subst hx
    exact ⟨⟨x, List.mem_cons_self, rfl⟩, ⟨x, List.mem_cons_self, rfl⟩⟩
  | cons y xs ih =>
    intro x hx
    rw [aprTableSetn] at hx
    split at hx
    · rcases List.mem_cons.mp hx with rfl | hx
      · exact ⟨⟨y, by simp, rfl⟩, ⟨e, by simp, rfl⟩⟩
      · exact ⟨⟨x, by simp [hx], rfl⟩, ⟨x, by simp [hx], rfl⟩⟩
    · rcases List.mem_cons.mp hx with rfl | hx
      · exact ⟨⟨x, by simp, rfl⟩, ⟨x, by simp, rfl⟩⟩
      · obtain ⟨⟨k, hk, hkey⟩, ⟨v, hv, hval⟩⟩ := ih x hx
        have hsub : ∀ z ∈ e :: xs, z ∈ e :: y :: xs := by
          intro z hz
          rcases List.mem_cons.mp hz with rfl | hz
          · exact List.mem_cons_self
          · exact List.mem_cons_of_mem _ (List.mem_cons_of_mem _ hz)
        exact ⟨⟨k, hsub k hk, hkey⟩, ⟨v, hsub v hv, hval⟩⟩

theorem table_from {mem : Mem} (es xs : List Entry) :
    ∀ x ∈ es.foldl (aprTableSetn mem) xs, (∃ y ∈ xs ++ es, x.key = y.key) ∧ ∃ y ∈ xs ++ es, x.val = y.val := by
  induction es generalizing xs with
  | nil =>
    intro x hx
    exact ⟨⟨x, List.mem_append_left _ hx, rfl⟩, ⟨x, List.mem_append_left _ hx, rfl⟩⟩
  | cons e es ih =>
    intro x hx
    have hback : ∀ {f : Entry → Nat} {n : Nat}, (∀ y ∈ aprTableSetn mem xs e, ∃ z ∈ e :: xs, f y = f z) →
        (∃ y ∈ aprTableSetn mem xs e ++ es, n = f y) → ∃ y ∈ xs ++ e :: es, n = f y := by
      rintro f n hf ⟨y, hy, rfl⟩
      rcases List.mem_append.mp hy with hy | hy
      · obtain ⟨z, hz, hfz⟩ := hf y hy
        refine ⟨z, ?_, hfz⟩
        rcases List.mem_cons.mp hz with rfl | hz
        · exact List.mem_append_right _ List.mem_cons_self
        · exact List.mem_append_left _ hz
      · exact ⟨y, List.mem_append_right _ (List.mem_cons_of_mem _ hy), rfl⟩
    obtain ⟨hkey, hval⟩ := ih _ x hx
    exact ⟨hback (fun y hy => (aprTableSetn_from xs e y hy).1) hkey,
      hback (fun y hy => (aprTableSetn_from xs e y hy).2) hval⟩

theorem inOrder_apart {mem : Mem} {es : List Entry} {start stop : Nat} (h : ∀ e ∈ es, e.InOrder mem start stop)
    (hpair : es.Pairwise fun e e' => e.val + (strAt mem e.val).length < e'.key) {x y : Entry} (hx : x ∈ es) (hy : y ∈ es)
    {p : Nat} (hp : x.key ≤ p) (hpl : p ≤ x.key + (strAt mem x.key).length) :
    ¬ (y.val ≤ p ∧ p < y.val + (strAt mem y.val).length) := by
  have hx' := h x hx
  have hy' := h y hy
  obtain ⟨i, hi, rfl⟩ := List.getElem_of_mem hx
  obtain ⟨j, hj, rfl⟩ := List.getElem_of_mem hy
  rintro ⟨hv, hvl⟩
  have hkx := hx'.key
  have hky := hy'.key
  rcases Nat.lt_trichotomy i j with hij | rfl | hij
  · have := List.pairwise_iff_getElem.mp hpair i j hi hj hij
    omega
  · omega
  · have := List.pairwise_iff_getElem.mp hpair j i hj hi hij
    omega

theorem page_guarded {args : Str} {params : List Param} {behind : Mem} {es : List Entry}
    (hes : ∀ e ∈ es, e ∈ (paramEntries 0 params).foldl (aprTableSetn (argsMem args params behind)) [])
    (h : A.Fills (argsMem args params behind) ∨ ListsKept A (argsMem args params behind) es) :
    Guarded A (argsMem args params behind).length (argsMem args params behind) es ∧
      ∀ e ∈ es, e.key < (argsMem args params behind).length := by
  obtain ⟨tail, htail⟩ : ∃ tail, argsMem args params behind = [] ++ (params.flatMap Param.mem ++ tail) :=
    ⟨_, by unfold argsMem; rw [List.nil_append, List.append_assoc]⟩
  obtain ⟨horder, hpair⟩ := paramEntries_inOrder params [] tail
  rw [← htail] at horder hpair
  have hlen : (params.flatMap Param.mem).length ≤ (argsMem args params behind).length := by
    rw [htail]
    simp
  generalize argsMem args params behind = mem at *
  simp only [List.length_nil, Nat.zero_add] at horder hpair
  have hfrom : ∀ e ∈ es, (∃ x ∈ paramEntries 0 params, e.key = x.key) ∧ ∃ y ∈ paramEntries 0 params, e.val = y.val :=
    fun e he => table_from (paramEntries 0 params) [] e (hes e he)
  have hkeys : ∀ e ∈ es, e.key + (strAt mem e.key).length < mem.length := by
    intro e he
    obtain ⟨⟨x, hx, hkey⟩, -⟩ := hfrom e he
    have hx' := horder x hx
    have := hx'.key
    have := hx'.stop
    rw [hkey]
    omega
  refine ⟨?_, fun e he => Nat.lt_of_le_of_lt (Nat.le_add_right _ _) (hkeys e he)⟩
  rcases h with hfill | hlists
  · exact Or.inl hfill
  refine Or.inr ⟨fun p => ∃ y ∈ paramEntries 0 params, y.val ≤ p ∧ p < y.val + (strAt mem y.val).length, ?_, ?_, ?_⟩
  · rintro p ⟨y, hy, -, hp⟩
    have := (horder y hy).stop
    omega
  · intro e he
    obtain ⟨⟨x, hx, hkey⟩, -⟩ := hfrom e he
    refine ⟨fun _ => hkeys e he, fun p hp hpl => ?_⟩
    rintro ⟨y, hy, hin⟩
    rw [hkey] at hp hpl
    exact inOrder_apart horder hpair hx hy hp hpl hin
  · intro e he hlist
    obtain ⟨hspells, hcomma⟩ := hlists e he hlist
    obtain ⟨-, ⟨y, hy, hval⟩⟩ := hfrom e he
    have hstop := (horder y hy).stop
    rw [← hval] at hstop
    refine ⟨e.val + (strAt mem e.val).length, Nat.le_add_right _ _, by omega, byteAt_strAt_end mem e.val,
      endsInComma_byteAt hcomma, fun p hp hpl => ⟨⟨y, hy, ?_⟩, Or.inr (hspells _ (byteAt_mem_strAt hp hpl))⟩⟩
    rw [← hval]
    exact ⟨hp, hpl⟩

/-! ### Commands of the page -/

theorem length_fieldsMem (ptr : List Nat) (m : Mem) : (fieldsMem httpd ptr m).length = m.length := by
  induction ptr, m using fieldsMem.induct httpd with
  | case1 m => rfl
  | case2 p m => rfl
  | case3 key val rest m hroute => rw [fieldsMem, if_pos hroute]
  | case4 key val rest m hroute ls hls ih =>
    rw [fieldsMem, if_neg hroute, hls]
    exact ih.trans (contextAliasMem_rewritten key val m).length
  | case5 key val rest m hroute e he =>
    rw [fieldsMem, if_neg hroute, he]
    exact (contextAliasMem_rewritten key val m).length

variable {now : Int} {filename : Str} {es : List Entry} {n : Nat} {ts : Tables}

/-- A walk over the nodes of a domain that is as it should be. -/
structure Walk.Spelled (A : Alphabet) (n : Nat) (es : List Entry) (w : Walk) : Prop where
  tables : w.tables.Spelled A
  mem : Guarded A n w.mem es
  length : w.mem.length = n

theorem domainNode_spells {cmd : Option ContextStatus} {w : Walk} {route : Str} (h : w.Spelled A n es)
    (hes : ∀ e ∈ es, e.key < n) (hroute : A.Spells route) :
    (domainNode httpd now filename cmd (entryPtr es) w route).Spelled A n es := by
  obtain ⟨htables, hmem, rfl⟩ := h
  cases cmd with
  | none => exact ⟨htables, hmem, rfl⟩
  | some cmd =>
    have hguard := hmem.withRoute hes hroute
    have hptr : (withRoute ⟨w.mem, entryPtr es⟩ route).ptr = entryPtr (es ++ [⟨w.mem.length, w.mem.length + 9⟩]) := by
      simp [withRoute, entryPtr]
    have hargv : withRoute ⟨w.mem, entryPtr es⟩ route =
        ⟨(withRoute ⟨w.mem, entryPtr es⟩ route).mem, entryPtr (es ++ [⟨w.mem.length, w.mem.length + 9⟩])⟩ := by
      rw [← hptr]
    refine ⟨?_, ?_, ?_⟩
    · refine processAppCmd_spells htables fun args hargs => ?_
      rw [hargv] at hargs
      exact hguard.parseApp hargs
    · have hfields := @Guarded.fieldsMem A _ _ _ httpd _ (fun _ he => he) hguard
      rw [← hptr] at hfields
      exact hfields.take hes
    · show ((fieldsMem httpd _ _).take w.mem.length).length = w.mem.length
      rw [List.length_take, length_fieldsMem]
      refine Nat.min_eq_left ?_
      simp [withRoute]

theorem processDomain_spells {cmd : Option ContextStatus} {domain : Option Str} (ids : List Int) {w : Walk}
    (h : w.Spelled A n es) (hes : ∀ e ∈ es, e.key < n) :
    (processDomain httpd now filename cmd (entryPtr es) domain ids w).tables.Spelled A := by
  induction ids generalizing w with
  | nil => exact h.tables
  | cons id ids ih =>
    unfold processDomain
    split
    · exact ih h
    rename_i i hi
    split
    · exact h.tables
    split
    · exact ih h
    · exact ih (domainNode_spells h hes (h.tables.nodes.peek spelled_default i).jvmRoute)

theorem processParams_spells {conf : PageConf} {mem : Mem} (h : ts.Spelled A)
    (hguard : conf.allowCmd = true → Guarded A mem.length mem es ∧ ∀ e ∈ es, e.key < mem.length) :
    (processParams httpd conf now ts filename mem es).1.Spelled A := by
  unfold processParams
  split
  · exact h
  split
  · exact h
  split
  · exact h
  cases hallow : conf.allowCmd with
  | false => exact h
  | true =>
    obtain ⟨hmem, hes⟩ := hguard hallow
    simp only [Bool.not_true, Bool.false_eq_true, if_false]
    split
    · split
      · exact h
      · exact processDomain_spells _ ⟨h, hmem, rfl⟩ hes
    · split
      · exact h
      · exact processAppCmd_spells h fun args hargs => hmem.parseApp hargs

/-- A page that may carry out commands names only aliases and contexts of the alphabet,
and no list that runs past its end unless all of the query, with what is behind it, is
of the alphabet. -/
def PageKept (A : Alphabet) (u : Unescaper) (conf : PageConf) (args : Str) (behind : Mem) : Prop :=
  conf.allowCmd = true → ∀ mem es, pageTable u conf args behind = some (mem, es) → A.Fills mem ∨ ListsKept A mem es

theorem managerInfo_spells {u : Unescaper} {conf : PageConf} {args : Str} {behind : Mem} (h : ts.Spelled A)
    (hkept : PageKept A u conf args behind) :
    (managerInfo httpd u conf now ts filename (some args) behind).tables.Spelled A := by
  rw [managerInfo_tables]
  cases ht : pageTable u conf args behind with
  | none => exact h
  | some t =>
    obtain ⟨mem, es⟩ := t
    refine processParams_spells h fun hallow => ?_
    have hlists := hkept hallow mem es ht
    unfold pageTable at ht
    split at ht
    · cases ht
    · rename_i params hparams
      cases ht
      refine page_guarded (fun e he => ?_) hlists
      split at he
      · cases he
      · exact he

/-! ## Runs -/

theorem appFields_fills (ptr : List Nat) (route : Str) (st : Lists) {r : Str × Lists} (hst : A.Fills st.mem)
    (h : appFields httpd ptr route st = .ok r) : A.Fills r.2.mem := by
  induction ptr, route, st using appFields.induct httpd with
  | case1 route st =>
    cases h
    exact hst
  | case2 key route st => cases h
  | case3 key val rest route st isRoute v hbig =>
    rw [appFields, if_pos hbig] at h
    cases h
  | case4 key val rest route st isRoute v hbig ls hls ih =>
    rw [appFields, if_neg hbig, hls] at h
    refine ih ?_ h
    rw [(processContextAlias_ok hls).1]
    exact (contextAliasMem_rewritten key val st.mem).fills hst
  | case5 key val rest route st isRoute v hbig e he =>
    rw [appFields, if_neg hbig, he] at h
    cases h

theorem parseApp_fills {glob : Bool} {argv : Argv} {args : AppArgs} (hmem : A.Fills argv.mem)
    (h : parseApp httpd glob argv = .ok args) :
    (∀ a ∈ args.aliases, A.Spells a) ∧ ∀ c ∈ args.contexts, A.Spells c := by
  unfold parseApp at h
  split at h
  · cases h
  rename_i route st hst
  have hfill : A.Fills st.mem := appFields_fills (r := (route, st)) _ _ _ hmem hst
  split at h
  · cases h
  split at h
  · cases h
  split at h
  · cases h
  split at h
  · cases h
  cases h
  refine ⟨fun a ha => ?_, fun c hc => ?_⟩
  · obtain ⟨s, -, rfl⟩ := List.mem_map.mp ha
    exact hfill.spells s
  · obtain ⟨s, -, rfl⟩ := List.mem_map.mp hc
    exact hfill.spells s

/-- What is asked of the configuration and of the messages of a run. -/
structure Demand where
  conf : Mconf → Prop
  message : Input → Argv → Prop

/-- A message, as it is sent and decoded, or what goes on beside the messages. -/
inductive McmpStep (httpd : Httpd) (D : Demand) : Tables → Tables → Prop
  | config {ts : Tables} (mconf : Mconf) (now : Int) (px : Option Proxy) (input : Input) (argv : Argv)
      (hsent : SentAs httpd input argv) (hconf : D.conf mconf) (hmessage : D.message input argv) :
      McmpStep httpd D ts (processConfig httpd mconf now ts px argv).tables
  | app {ts : Tables} (now : Int) (filename : Str) (cmd : ContextStatus) (input : Input) (argv : Argv)
      (hsent : SentAs httpd input argv) (hmessage : D.message input argv) :
      McmpStep httpd D ts (processAppCmd httpd now ts filename argv cmd).tables
  | watchdog {ts : Tables} (wait now : Int) : McmpStep httpd D ts (removeRemovedNode httpd wait now ts)
  | lbWatchdog {ts : Tables} (wait now : Int) (nodeTable : List Int) :
      McmpStep httpd D ts (lbRemoveRemovedNode wait now nodeTable ts)
  | bookkeeping {ts : Tables} (i : Nat) (a n : Nodeinfo) (hused : ts.nodes.used i = some a) (hkeep : Bookkeeping a n) :
      McmpStep httpd D ts { ts with nodes := ts.nodes.poke i n }

theorem McmpStep.spells {D : Demand} {ts' : Tables} (hconf : ∀ mconf, D.conf mconf → mconf.Spelled A)
    (hmessage : ∀ input argv, SentAs httpd input argv → D.message input argv → A.Fills argv.mem)
    (h : McmpStep httpd D ts ts') (hts : ts.Spelled A) : ts'.Spelled A := by
  cases h with
  | config mconf now px input argv hsent hc hm =>
    exact processConfig_spells hts (hconf mconf hc) (hmessage input argv hsent hm)
  | app now filename cmd input argv hsent hm =>
    exact processAppCmd_spells hts fun args hargs => parseApp_fills (hmessage input argv hsent hm) hargs
  | watchdog wait now => exact removeRemovedNode_spells hts
  | lbWatchdog wait now nodeTable => exact lbRemoveRemovedNode_spells nodeTable hts
  | bookkeeping i a n hused hkeep =>
    have ha := hts.nodes.used hused
    refine hts.setNodes (hts.nodes.poke ?_ i)
    refine ⟨?_, ?_, ?_, ?_, ?_, ?_⟩
    · rw [hkeep.balancer]
      exact ha.balancer
    · rw [hkeep.jvmRoute]
      exact ha.jvmRoute
    · rw [hkeep.domain]
      exact ha.domain
    · rw [hkeep.host]
      exact ha.host
    · rw [hkeep.port]
      exact ha.port
    · rw [hkeep.type]
      exact ha.type

theorem spelled_empty (sz : Sizes) : (emptyTables sz).Spelled A where
  nodes := @all_empty Nodeinfo (·.mess.Spelled A) _ spelled_default sz.nodes
  hosts := @all_empty Hostinfo (fun h => A.Spells h.host) _ spells_nil sz.hosts
  contexts := @all_empty Contextinfo (fun c => A.Spells c.context) _ spells_nil sz.contexts
  balancers := @all_empty Balancerinfo (Balancerinfo.Spelled A) _ ⟨spells_nil, spells_nil, spells_nil⟩ sz.balancers

/-! ## Clean tables -/

def cleanAlphabet : Alphabet where
  ok b := !isForbidden b
  lower := forall_byte (by decide +kernel)
  fixed := by decide +kernel

theorem spells_clean {s : Str} : cleanAlphabet.Spells s ↔ Clean s := by
  unfold Alphabet.Spells Clean cleanAlphabet
  simp only [Bool.not_eq_true']

/-- No name of the configuration holds a forbidden character, nor does what a body has
behind a NUL. -/
def cleanDemand (careful : Prop) : Demand where
  conf mconf := careful → mconf.Spelled cleanAlphabet
  message input _ := careful → Clean input.behindNul

inductive RequestStep (httpd : Httpd) (careful : Prop) : Tables → Tables → Prop
  | mcmp {ts ts' : Tables} (h : McmpStep httpd (cleanDemand careful) ts ts') : RequestStep httpd careful ts ts'
  | page {ts : Tables} (conf : PageConf) (now : Int) (filename args : Str) (behind : Mem)
      (hkept : careful → PageKept cleanAlphabet apUnescapeUrl conf args behind) :
      RequestStep httpd careful ts (managerInfo httpd apUnescapeUrl conf now ts filename (some args) behind).tables

def RequestsReach (httpd : Httpd) (careful : Prop) (ts : Tables) : Prop :=
  ∃ sz, Relation.ReflTransGen (RequestStep httpd careful) (emptyTables sz) ts

theorem RequestStep.spells {ts' : Tables} (h : RequestStep httpd True ts ts') (hts : ts.Spelled cleanAlphabet) :
    ts'.Spelled cleanAlphabet := by
  cases h with
  | mcmp h =>
    have hmessage : ∀ input argv, SentAs httpd input argv → (cleanDemand True).message input argv →
        cleanAlphabet.Fills argv.mem := by
      intro input argv hsent hclean b hb
      right
      rcases hsent.bytes b hb with hb | hb
      · exact (Bool.not_eq_true' _).mpr hb
      · exact (Bool.not_eq_true' _).mpr (hclean trivial b hb)
    have hconf : ∀ mconf, (cleanDemand True).conf mconf → mconf.Spelled cleanAlphabet := fun mconf hc => hc trivial
    exact h.spells hconf hmessage hts
  | page conf now filename args behind hkept => exact managerInfo_spells hts (hkept trivial)

/-- No string of a record in use can break out of a page. -/
structure CleanTables (ts : Tables) : Prop where
  nodes : ∀ i n, ts.nodes.used i = some n → Clean n.mess.jvmRoute ∧ Clean n.mess.balancer ∧ Clean n.mess.domain ∧
    Clean n.mess.host ∧ Clean n.mess.port ∧ Clean n.mess.type
  balancers : ∀ i b, ts.balancers.used i = some b → Clean b.balancer ∧ Clean b.stickySessionCookie ∧
    Clean b.stickySessionPath
  hosts : ∀ i h, ts.hosts.used i = some h → Clean h.host
  contexts : ∀ i c, ts.contexts.used i = some c → Clean c.context

theorem reachable_clean (httpd : Httpd) (ts : Tables) (h : RequestsReach httpd True ts) : CleanTables ts := by
  obtain ⟨sz, h⟩ := h
  have hts : ts.Spelled cleanAlphabet := by
    induction h with
    | refl => exact spelled_empty sz
    | tail _ hstep ih => exact hstep.spells ih
  refine ⟨fun i n hn => ?_, fun i b hb => ?_, fun i x hx => ?_, fun i c hc => ?_⟩
  · obtain ⟨hbal, hroute, hdom, hhost, hport, htype⟩ := hts.nodes.used hn
    exact ⟨spells_clean.mp hroute, spells_clean.mp hbal, spells_clean.mp hdom, spells_clean.mp hhost,
      spells_clean.mp hport, spells_clean.mp htype⟩
  · obtain ⟨hbal, hcookie, hpath⟩ := hts.balancers.used hb
    exact ⟨spells_clean.mp hbal, spells_clean.mp hcookie, spells_clean.mp hpath⟩
  · exact spells_clean.mp (hts.hosts.used hx)
  · exact spells_clean.mp (hts.contexts.used hc)

/-! ### Pages of one node -/

def registration : Input := ⟨[ascii "JVMRoute=n1&Alias=host1&Context=/app"], .eos⟩

/-- The page enables a context of `oneNode`. -/
def enableQuery (context : String) : Str :=
  ascii "Cmd=ENABLE-APP&Range=CONTEXT&JVMRoute=n1&Alias=host1&Context=" ++ ascii context

def enabledBy (context : String) : Tables :=
  (managerInfo plainHttpd apUnescapeUrl openPage 0 oneNode (ascii "/mod_cluster_manager") (some (enableQuery context))
    []).tables

theorem page_facts :
    (receiveArgv plainHttpd smallestBuffer (ascii "CONFIG") registration).map (fun argv =>
        (processConfig plainHttpd Mconf.default 0 (emptyTables ⟨2, 2, 2, 2, 2⟩) none argv).tables) = .ok oneNode ∧
      Clean registration.behindNul ∧
      (pageTable apUnescapeUrl openPage (enableQuery "%2Fshop") []).all (fun t => t.1.all cleanAlphabet.ok) = true ∧
      ((enabledBy "%2Fshop").contexts.used 1).map (·.context) = some (ascii "/shop") ∧
      ((enabledBy "%2F%3Cb%3E").contexts.used 1).map (·.context) = some (ascii "/<b>") := by
  decide +kernel

theorem enabledBy_step (careful : Prop) (context : String)
    (h : careful → PageKept cleanAlphabet apUnescapeUrl openPage (enableQuery context) []) :
    RequestStep plainHttpd careful oneNode (enabledBy context) :=
  RequestStep.page openPage 0 _ _ _ h

theorem oneNode_requests (careful : Prop) : RequestsReach plainHttpd careful oneNode := by
  obtain ⟨argv, hargv, htables⟩ := exists_of_map_ok page_facts.1
  have hsent : SentAs plainHttpd registration argv := ⟨smallestBuffer, ascii "CONFIG", hargv⟩
  have hstep : McmpStep plainHttpd (cleanDemand careful) (emptyTables ⟨2, 2, 2, 2, 2⟩) oneNode := by
    rw [← htables]
    exact McmpStep.config Mconf.default 0 none registration argv hsent (fun _ => nofun) fun _ => page_facts.2.1
  exact ⟨⟨2, 2, 2, 2, 2⟩, Relation.ReflTransGen.single (RequestStep.mcmp hstep)⟩

theorem enableQuery_kept : PageKept cleanAlphabet apUnescapeUrl openPage (enableQuery "%2Fshop") [] := by
  intro _ mem es ht
  have hd := page_facts.2.2.1
  rw [ht] at hd
  exact Or.inl fun b hb => Or.inr (List.all_eq_true.mp hd b hb)

theorem shop_clean :
    (∃ c, (enabledBy "%2Fshop").contexts.used 1 = some c ∧ c.context = ascii "/shop") ∧
      CleanTables (enabledBy "%2Fshop") := by
  obtain ⟨sz, hreach⟩ := oneNode_requests True
  refine ⟨Option.map_eq_some_iff.mp page_facts.2.2.2.1, reachable_clean plainHttpd _ ⟨sz, hreach.tail ?_⟩⟩
  exact enabledBy_step True "%2Fshop" fun _ => enableQuery_kept

/-- Markup comes in as it is. -/
theorem page_stores_markup : ∃ ts, RequestsReach plainHttpd False ts ∧ ¬ CleanTables ts := by
  obtain ⟨sz, hreach⟩ := oneNode_requests False
  refine ⟨enabledBy "%2F%3Cb%3E", ⟨sz, hreach.tail ?_⟩, fun hclean => ?_⟩
  · exact enabledBy_step False "%2F%3Cb%3E" False.elim
  · obtain ⟨c, hc, hcontext⟩ := Option.map_eq_some_iff.mp page_facts.2.2.2.2
    have hbad := hclean.contexts 1 c hc
    rw [hcontext] at hbad
    exact absurd hbad (by decide)

end ModCluster
