import ModCluster.ListFields
import ModCluster.Splitting

/-!
# Which lists are parsed as they are written

`parse_list_to_array_with_checks` passes the byte behind a comma unseen. So it neither
counts it nor sees that it is a comma, or the end of the value. Here is what the
scan makes of every value, and the values with which this does no harm.
-/

open CString

namespace ModCluster

/-! ## What is read, and what was written -/

/-- The offsets that the loop reads a byte from, over `rest`, the memory from offset
`current` on. -/
def parseListReads (lenLimit : Nat) : (rest : List Byte) → (current len : Nat) → List Nat
  | [], current, _ => [current]
  | b :: rest, current, len =>
    current ::
      (if b = 0 then []
      else if b = ch ',' then
        if lenLimit = 0 then []
        else match rest with
          | [] => [current + 2]
          | _ :: rest => parseListReads lenLimit rest (current + 2) 0
      else if len + 1 ≥ lenLimit then []
      else parseListReads lenLimit rest (current + 1) (len + 1))

def isComma (b : Byte) : Bool := b == ch ','

/-- The items of a list as they are written. -/
def listItems (v : Str) : List Str := v.splitOnP isComma

/-- Every item has a size that it may have. -/
def ItemsFit (lenLimit : Nat) (v : Str) : Prop := ∀ w ∈ listItems v, w ≠ [] ∧ w.length < lenLimit

instance (lenLimit : Nat) (v : Str) : Decidable (ItemsFit lenLimit v) := List.decidableBAll _ (listItems v)

/-- The value `v` at the end of `pre` is taken if its items fit, and then for them. The scan
does not leave it. -/
def ParsedExactly (lenLimit : Nat) (pre : Mem) (v : Str) (behind : Mem) : Prop :=
  let m := pre ++ (v ++ 0 :: behind)
  let s := parseListToArrayWithChecks m pre.length lenLimit
  (s.ret = 0 ↔ ItemsFit lenLimit v) ∧
    (s.ret = 0 → s.starts.map (strAt (putNuls m s.nuls)) = listItems v) ∧
    ∀ p ∈ parseListReads lenLimit (m.drop pre.length) pre.length 0, p ≤ pre.length + v.length

/-- The items behind the first as the scan tells them apart, when `item` has been read: the
byte behind a comma is the first of the next item, be it a comma. -/
def laterItems (item : Str) : Str → List Str
  | [] => [item]
  | b :: rest =>
    if isComma b = true ∧ item ≠ [] then item :: laterItems [] rest else laterItems (item ++ [b]) rest

def firstItem (v : Str) : Str := v.takeWhile fun b => !isComma b

def itemsBehind (v : Str) : List Str :=
  match v.dropWhile fun b => !isComma b with
  | [] => []
  | _ :: rest => laterItems [] rest

/-- The last item is a single character behind a comma. -/
def SingleLast (items : List Str) : Prop := ∃ w, items.getLast? = some w ∧ w.length = 1

instance (items : List Str) : Decidable (SingleLast items) :=
  match h : items.getLast? with
  | none => isFalse fun ⟨w, hw, _⟩ => by rw [h] at hw; cases hw
  | some w =>
    if hw : w.length = 1 then isTrue ⟨w, h, hw⟩
    else isFalse fun ⟨w', hw', hlen⟩ => by
      rw [h] at hw'
      exact hw (Option.some.inj hw' ▸ hlen)

/-- The list has one item. Or its items fit and the last is not a single character. Or some
do not, and the scan comes upon an item that is too long for it or ends with a
single character. -/
def ReadAsWritten (lenLimit : Nat) (v : Str) : Prop :=
  itemsBehind v = [] ∨
    if ItemsFit lenLimit v then ¬ SingleLast (itemsBehind v)
    else lenLimit ≤ (firstItem v).length ∨ (∃ w ∈ itemsBehind v, lenLimit < w.length) ∨ SingleLast (itemsBehind v)

/-! ## The scan behind the first comma -/

variable {lenLimit : Nat}

theorem parseListReads_head (rest : List Byte) (current len : Nat) :
    current ∈ parseListReads lenLimit rest current len := by
  rw [parseListReads.eq_def]
  cases rest with
  | nil => exact List.mem_singleton_self current
  | cons b rest => exact List.mem_cons_self

theorem parseListReads_nul (rest : List Byte) (current len : Nat) :
    parseListReads lenLimit (0 :: rest) current len = [current] := by
  rw [parseListReads.eq_def]
  simp only
  rw [if_pos trivial]

theorem parseListReads_comma (hlim : lenLimit ≠ 0) (b : Byte) (rest : List Byte) (current len : Nat) :
    parseListReads lenLimit (ch ',' :: b :: rest) current len = current :: parseListReads lenLimit rest (current + 2) 0 := by
  rw [parseListReads.eq_def]
  simp only
  rw [if_neg (by decide), if_pos trivial, if_neg hlim]

theorem parseListReads_char {b : Byte} (hb : b ≠ 0) (hcomma : b ≠ ch ',') (rest : List Byte) (current len : Nat) :
    parseListReads lenLimit (b :: rest) current len =
      current :: if len + 1 ≥ lenLimit then [] else parseListReads lenLimit rest (current + 1) (len + 1) := by
  rw [parseListReads.eq_def]
  simp only
  rw [if_neg hb, if_neg hcomma]

theorem exists_laterItems (item s : Str) : ∃ w ∈ laterItems item s, item.length ≤ w.length := by
  induction s generalizing item with
  | nil => exact ⟨item, List.mem_singleton_self item, Nat.le_refl _⟩
  | cons b s ih =>
    rw [laterItems]
    split
    · exact ⟨item, List.mem_cons_self, Nat.le_refl _⟩
    · obtain ⟨w, hw, hlen⟩ := ih (item ++ [b])
      rw [List.length_append] at hlen
      exact ⟨w, hw, by omega⟩

theorem laterItems_ne_nil (item s : Str) : laterItems item s ≠ [] := by
  obtain ⟨w, hw, -⟩ := exists_laterItems item s
  exact List.ne_nil_of_mem hw

/-- How the scan ends that reads `items`. -/
inductive Scanned (lenLimit : Nat) (items : List Str) (s : Split) (inside : Prop) (read : Prop) : Prop
  | tooLong (h : ∃ w ∈ items, lenLimit < w.length) (ret : s.ret = 1) (hin : inside)
  | past (h : ∀ w ∈ items, w.length ≤ lenLimit) (last : items.getLast? = some []) (hout : ¬ inside)
  | single (h : ∀ w ∈ items, w.length ≤ lenLimit) (w : Str) (last : items.getLast? = some w) (hw : w.length = 1)
      (ret : s.ret = -1) (hin : inside)
  | taken (h : ∀ w ∈ items, w.length ≤ lenLimit) (w : Str) (last : items.getLast? = some w) (hw : 2 ≤ w.length)
      (ret : s.ret = 0) (hin : inside) (hread : read)

theorem Scanned.cons {items : List Str} {s : Split} {inside inside' read read' : Prop} {item : Str} {start nul : Nat}
    (h : Scanned lenLimit items s inside read) (hitem : item.length ≤ lenLimit) (hne : items ≠ [])
    (hinside : inside ↔ inside') (hread : read → read') :
    Scanned lenLimit (item :: items) (s.push start nul) inside' read' := by
  have hlast : (item :: items).getLast? = items.getLast? := by
    rw [List.getLast?_cons_of_ne_nil hne]
  cases h with
  | tooLong h ret hin =>
    obtain ⟨w, hw, hlong⟩ := h
    exact .tooLong ⟨w, List.mem_cons_of_mem _ hw, hlong⟩ ret (hinside.mp hin)
  | past h last hout =>
    exact .past (List.forall_mem_cons.mpr ⟨hitem, h⟩) (hlast.trans last) fun hin => hout (hinside.mpr hin)
  | single h w last hw ret hin =>
    exact .single (List.forall_mem_cons.mpr ⟨hitem, h⟩) w (hlast.trans last) hw ret (hinside.mp hin)
  | taken h w last hw ret hin hr =>
    exact .taken (List.forall_mem_cons.mpr ⟨hitem, h⟩) w (hlast.trans last) hw ret (hinside.mp hin) (hread hr)

theorem Scanned.imp {items : List Str} {s : Split} {inside inside' read read' : Prop}
    (h : Scanned lenLimit items s inside read) (hinside : inside ↔ inside') (hread : read → read') :
    Scanned lenLimit items s inside' read' := by
  cases h with
  | tooLong h ret hin => exact .tooLong h ret (hinside.mp hin)
  | past h last hout => exact .past h last fun hin => hout (hinside.mpr hin)
  | single h w last hw ret hin => exact .single h w last hw ret (hinside.mp hin)
  | taken h w last hw ret hin hr => exact .taken h w last hw ret (hinside.mp hin) (hread hr)

theorem Scanned.push {items : List Str} {s : Split} {inside read : Prop} (h : Scanned lenLimit items s inside read)
    (start nul : Nat) : Scanned lenLimit items (s.push start nul) inside read := by
  cases h with
  | tooLong h ret hin => exact .tooLong h ret hin
  | past h last hout => exact .past h last hout
  | single h w last hw ret hin => exact .single h w last hw ret hin
  | taken h w last hw ret hin hr => exact .taken h w last hw ret hin hr

/-- The pointers lead to the items once the commas are NULs. -/
def ItemsAt (done m : Mem) (s : Split) (items : List Str) : Prop :=
  ∃ mem, putNuls m s.nuls = done ++ mem ∧ TokensAt done.length items mem s.starts

theorem set_comma (done : Mem) (item rest : List Byte) (b : Byte) :
    (done ++ (item ++ b :: rest)).set (done.length + item.length) 0 = (done ++ (item ++ [0])) ++ rest := by
  have hassoc : done ++ (item ++ b :: rest) = (done ++ item) ++ b :: rest := by simp
  have hlen : done.length + item.length = (done ++ item).length := List.length_append.symm
  rw [hassoc, hlen, List.set_append_right _ _ (Nat.le_refl _), Nat.sub_self, List.set_cons_zero]
  simp

theorem scan_later (hlim : lenLimit ≠ 0) (behind : Mem) (s item : Str) (hitem : item ≠ []) (hfits : item.length ≤ lenLimit)
    (hnul : 0 ∉ item ∧ 0 ∉ s) (done : Mem) :
    Scanned lenLimit (laterItems item s)
      (parseListLoop lenLimit (s ++ 0 :: behind) (done.length + item.length) done.length (item.length - 1))
      (∀ p ∈ parseListReads lenLimit (s ++ 0 :: behind) (done.length + item.length) (item.length - 1),
        p ≤ done.length + item.length + s.length)
      (ItemsAt done (done ++ (item ++ (s ++ 0 :: behind)))
        (parseListLoop lenLimit (s ++ 0 :: behind) (done.length + item.length) done.length (item.length - 1))
        (laterItems item s)) := by
  have hpos : 0 < item.length := List.length_pos_of_ne_nil hitem
  induction hn : s.length using Nat.strong_induction_on generalizing s item done with
  | _ n ih =>
    subst hn
    cases s with
    | nil =>
      have hall : ∀ w ∈ laterItems item [], w.length ≤ lenLimit := by
        intro w hw
        rw [List.mem_singleton.mp hw]
        exact hfits
      have hreads : ∀ p ∈ parseListReads lenLimit ([] ++ 0 :: behind) (done.length + item.length) (item.length - 1),
          p ≤ done.length + item.length + 0 := by
        rw [List.nil_append, parseListReads_nul]
        intro p hp
        rw [List.mem_singleton.mp hp]
        exact Nat.le_refl _
      rw [List.nil_append, parseListLoop_nul, parseListLoop.stop, if_neg (by omega)]
      by_cases hone : item.length = 1
      · rw [if_pos (by omega)]
        exact .single hall item rfl hone rfl hreads
      · rw [if_neg (by omega)]
        refine .taken hall item rfl (by omega) rfl hreads ⟨item ++ 0 :: ([] ++ behind), rfl, ?_⟩
        exact .cons hnul.1 (.nil behind)
    | cons b s =>
      obtain ⟨hb, hs⟩ : b ≠ 0 ∧ 0 ∉ s := by
        have hnul' := hnul.2
        rw [List.mem_cons, not_or] at hnul'
        exact ⟨fun h => hnul'.1 h.symm, hnul'.2⟩
      by_cases hcomma : b = ch ','
      · subst hcomma
        have hlater : laterItems item (ch ',' :: s) = item :: laterItems [] s := by
          rw [laterItems, if_pos ⟨rfl, hitem⟩]
        rw [hlater]
        cases s with
        | nil =>
          -- The byte behind the comma is the NUL.
          refine .past ?_ rfl ?_
          · intro w hw
            rcases List.mem_cons.mp hw with rfl | hw
            · exact hfits
            · rw [List.mem_singleton.mp hw]
              exact Nat.zero_le _
          · intro hin
            rw [List.singleton_append, parseListReads_comma hlim] at hin
            have := hin (done.length + item.length + 2) (List.mem_cons_of_mem _ (parseListReads_head _ _ _))
            simp only [List.length_cons, List.length_nil] at this
            omega
        | cons c s =>
          have hfirst : laterItems [] (c :: s) = laterItems [c] s := by
            rw [laterItems, if_neg fun h => h.2 rfl]
            rfl
          obtain ⟨hc, hs'⟩ : c ≠ 0 ∧ 0 ∉ s := by
            rw [List.mem_cons, not_or] at hs
            exact ⟨fun h => hs.1 h.symm, hs.2⟩
          have hnext := ih s.length (by simp only [List.length_cons]; omega) s [c] (List.cons_ne_nil _ _)
            (by rw [List.length_singleton]; omega) ⟨by rw [List.mem_singleton]; exact hc.symm, hs'⟩
            (done ++ (item ++ [0])) (Nat.lt_succ_self 0) rfl
          have hdone : (done ++ (item ++ [0])).length = done.length + item.length + 1 := by
            rw [List.length_append, List.length_append, List.length_singleton]
            omega
          rw [hdone, List.length_singleton] at hnext
          rw [hfirst, List.cons_append, List.cons_append, parseListLoop_comma _ _ _ _ hlim, parseListReads_comma hlim]
          refine hnext.cons hfits (laterItems_ne_nil _ _) ?_ ?_
          · rw [List.forall_mem_cons]
            simp only [List.length_cons]
            constructor
            · intro h
              exact ⟨by omega, fun p hp => by have := h p hp; omega⟩
            · intro h p hp
              have := h.2 p hp
              omega
          · rintro ⟨mem, hmem, htokens⟩
            refine ⟨item ++ 0 :: ([] ++ mem), ?_, .cons hnul.1 ?_⟩
            · have hset := set_comma done item (c :: (s ++ 0 :: behind)) (ch ',')
              have hput : putNuls (done ++ (item ++ ch ',' :: c :: (s ++ 0 :: behind)))
                  ((done.length + item.length) ::
                    (parseListLoop lenLimit (s ++ 0 :: behind) (done.length + item.length + 2)
                      (done.length + item.length + 1) 0).nuls) =
                  putNuls ((done ++ (item ++ [0])) ++ ([c] ++ (s ++ 0 :: behind)))
                    (parseListLoop lenLimit (s ++ 0 :: behind) (done.length + item.length + 2)
                      (done.length + item.length + 1) 0).nuls := by
                unfold putNuls
                rw [List.foldl_cons, hset]
                rfl
              refine hput.trans (hmem.trans ?_)
              simp
            · rw [hdone] at htokens
              exact htokens
      · have hlater : laterItems item (b :: s) = laterItems (item ++ [b]) s := by
          rw [laterItems, if_neg]
          intro h
          exact hcomma (beq_iff_eq.mp h.1)
        rw [hlater, List.cons_append, parseListLoop_char _ _ _ _ hb hcomma, parseListReads_char hb hcomma]
        by_cases hlong : lenLimit ≤ item.length
        · rw [if_pos (by omega), if_pos (by omega)]
          refine .tooLong ?_ rfl ?_
          · obtain ⟨w, hw, hlen⟩ := exists_laterItems (item ++ [b]) s
            rw [List.length_append, List.length_singleton] at hlen
            exact ⟨w, hw, by omega⟩
          · intro p hp
            rw [List.mem_singleton.mp hp]
            omega
        · have hnext := ih s.length (Nat.lt_succ_self _) s (item ++ [b]) (by simp)
            (by rw [List.length_append, List.length_singleton]; omega)
            ⟨by rw [List.mem_append, not_or, List.mem_singleton]; exact ⟨hnul.1, hb.symm⟩, hs⟩ done (by simp) rfl
          have hlen : (item ++ [b]).length = item.length + 1 := by rw [List.length_append, List.length_singleton]
          have hcount : item.length + 1 - 1 = item.length - 1 + 1 := by omega
          have hassoc : item ++ [b] ++ (s ++ 0 :: behind) = item ++ b :: (s ++ 0 :: behind) := by simp
          rw [hlen, hcount, hassoc, ← Nat.add_assoc] at hnext
          rw [if_neg (by omega), if_neg (by omega)]
          refine hnext.imp ?_ id
          rw [List.forall_mem_cons, List.length_cons]
          constructor
          · intro h
            exact ⟨by omega, fun p hp => by have := h p hp; omega⟩
          · intro h p hp
            have := h.2 p hp
            omega

/-! ## The first item -/

theorem scan_first {w : Str} (hw : ∀ b ∈ w, b ≠ 0 ∧ b ≠ ch ',') (rest : List Byte) (current start len : Nat)
    (hfits : len + w.length < lenLimit) :
    parseListLoop lenLimit (w ++ rest) current start len =
        parseListLoop lenLimit rest (current + w.length) start (len + w.length) ∧
      ∀ bound, current + w.length ≤ bound →
        ((∀ p ∈ parseListReads lenLimit (w ++ rest) current len, p ≤ bound) ↔
          ∀ p ∈ parseListReads lenLimit rest (current + w.length) (len + w.length), p ≤ bound) := by
  induction w generalizing current len with
  | nil => exact ⟨rfl, fun bound _ => Iff.rfl⟩
  | cons b w ih =>
    obtain ⟨hb, hw'⟩ := List.forall_mem_cons.mp hw
    rw [List.length_cons] at hfits
    obtain ⟨hloop, hreads⟩ := ih hw' (current + 1) (len + 1) (by omega)
    have hcurrent : current + 1 + w.length = current + (b :: w).length := by
      rw [List.length_cons]
      omega
    have hlen : len + 1 + w.length = len + (b :: w).length := by
      rw [List.length_cons]
      omega
    rw [hcurrent, hlen] at hloop hreads
    rw [List.cons_append, parseListLoop_char _ _ _ _ hb.1 hb.2, if_neg (by omega), parseListReads_char hb.1 hb.2,
      if_neg (by omega)]
    refine ⟨hloop, fun bound hbound => ?_⟩
    rw [List.forall_mem_cons, hreads bound hbound]
    rw [List.length_cons] at hbound
    exact and_iff_right (by omega)

theorem scan_long {w : Str} (hw : ∀ b ∈ w, b ≠ 0 ∧ b ≠ ch ',') (rest : List Byte) (current start len : Nat)
    (hlen : len < lenLimit) (hlong : lenLimit ≤ len + w.length) :
    (parseListLoop lenLimit (w ++ rest) current start len).ret = 1 ∧
      ∀ p ∈ parseListReads lenLimit (w ++ rest) current len, p ≤ current + w.length := by
  induction w generalizing current len with
  | nil =>
    rw [List.length_nil] at hlong
    omega
  | cons b w ih =>
    obtain ⟨hb, hw'⟩ := List.forall_mem_cons.mp hw
    rw [List.length_cons] at hlong
    rw [List.cons_append, parseListLoop_char _ _ _ _ hb.1 hb.2, parseListReads_char hb.1 hb.2, List.length_cons]
    by_cases hstop : len + 1 ≥ lenLimit
    · rw [if_pos hstop, if_pos hstop]
      refine ⟨rfl, fun p hp => ?_⟩
      rw [List.mem_singleton.mp hp]
      omega
    · rw [if_neg hstop, if_neg hstop]
      obtain ⟨hret, hreads⟩ := ih hw' (current + 1) (len + 1) (by omega) (by omega)
      refine ⟨hret, List.forall_mem_cons.mpr ⟨by omega, fun p hp => ?_⟩⟩
      have := hreads p hp
      omega

theorem exists_first_item (v : Str) :
    ∃ w : Str, (∀ b ∈ w, isComma b = false) ∧ (v = w ∨ ∃ rest, v = w ++ ch ',' :: rest) := by
  refine ⟨firstItem v, fun b hb => ?_, ?_⟩
  · have := List.mem_takeWhile_imp hb
    simpa using this
  · have hsplit := List.takeWhile_append_dropWhile (p := fun b => !isComma b) (l := v)
    cases hd : v.dropWhile fun b => !isComma b with
    | nil =>
      rw [hd, List.append_nil] at hsplit
      exact Or.inl hsplit.symm
    | cons c rest =>
      have hc : c = ch ',' := by
        have hhead := List.head_dropWhile_not (fun b => !isComma b) (l := v) (by rw [hd]; exact List.cons_ne_nil _ _)
        simp only [hd, List.head_cons, Bool.not_eq_false'] at hhead
        exact beq_iff_eq.mp hhead
      rw [hd, hc] at hsplit
      exact Or.inr ⟨rest, hsplit.symm⟩

section Items

variable {w : Str} (hw : ∀ b ∈ w, isComma b = false)

include hw

theorem items_one : listItems w = [w] ∧ itemsBehind w = [] ∧ firstItem w = w := by
  have hall : ∀ b ∈ w, (!isComma b) = true := fun b hb => by rw [hw b hb]; rfl
  have hdrop : (w.dropWhile fun b => !isComma b) = [] := List.dropWhile_eq_nil_iff.mpr hall
  refine ⟨List.splitOnP_eq_singleton hw, ?_, List.takeWhile_eq_self_iff.mpr hall⟩
  unfold itemsBehind
  rw [hdrop]

theorem items_cons (rest : Str) :
    listItems (w ++ ch ',' :: rest) = w :: listItems rest ∧ itemsBehind (w ++ ch ',' :: rest) = laterItems [] rest ∧
      firstItem (w ++ ch ',' :: rest) = w := by
  have hall : ∀ b ∈ w, (!isComma b) = true := fun b hb => by rw [hw b hb]; rfl
  have hdrop : ((w ++ ch ',' :: rest).dropWhile fun b => !isComma b) = ch ',' :: rest := by
    rw [List.dropWhile_append_of_pos hall]
    rfl
  have htake : ((w ++ ch ',' :: rest).takeWhile fun b => !isComma b) = w := by
    rw [List.takeWhile_append_of_pos hall]
    exact List.append_nil w
  refine ⟨List.splitOnP_append_cons_of_forall_mem hw _ (by decide) rest, ?_, htake⟩
  unfold itemsBehind
  rw [hdrop]

end Items

theorem laterItems_eq {item s : Str} (hitem : ∀ b ∈ item, isComma b = false)
    (hne : ∀ w ∈ listItems (item ++ s), w ≠ []) : laterItems item s = listItems (item ++ s) := by
  induction s generalizing item with
  | nil =>
    rw [List.append_nil, (items_one hitem).1]
    rfl
  | cons b s ih =>
    cases hb : isComma b with
    | true =>
      have hcomma : b = ch ',' := beq_iff_eq.mp hb
      rw [hcomma, (items_cons hitem s).1] at hne ⊢
      obtain ⟨hitem', hrest⟩ := List.forall_mem_cons.mp hne
      rw [laterItems, if_pos ⟨rfl, hitem'⟩, ih (List.forall_mem_nil _) hrest]
      rfl
    | false =>
      have hassoc : item ++ b :: s = (item ++ [b]) ++ s := by simp
      rw [hassoc] at hne ⊢
      rw [laterItems, hb, if_neg fun h => Bool.false_ne_true h.1]
      refine ih (fun c hc => ?_) hne
      rcases List.mem_append.mp hc with hc | hc
      · exact hitem c hc
      · rw [List.mem_singleton.mp hc]
        exact hb

/-! ## The whole value -/

theorem not_singleLast {items : List Str} {w : Str} (hlast : items.getLast? = some w) (hw : w.length ≠ 1) :
    ¬ SingleLast items := by
  rintro ⟨w', hw', hlen⟩
  rw [hlast] at hw'
  exact hw (Option.some.inj hw' ▸ hlen)

theorem scan_behind_comma (hlim : lenLimit ≠ 0) {w rest : Str} (hw : ∀ b ∈ w, b ≠ 0 ∧ b ≠ ch ',') (hrest : 0 ∉ rest)
    (hfits : w.length < lenLimit) (pre behind : Mem) :
    Scanned lenLimit (laterItems [] rest)
      (parseListLoop lenLimit (w ++ (ch ',' :: rest ++ 0 :: behind)) pre.length pre.length 0)
      (∀ p ∈ parseListReads lenLimit (w ++ (ch ',' :: rest ++ 0 :: behind)) pre.length 0,
        p ≤ pre.length + w.length + 1 + rest.length)
      (ItemsAt pre (pre ++ (w ++ (ch ',' :: rest ++ 0 :: behind)))
        (parseListLoop lenLimit (w ++ (ch ',' :: rest ++ 0 :: behind)) pre.length pre.length 0)
        (w :: laterItems [] rest)) := by
  obtain ⟨hloop, hreads⟩ := @scan_first lenLimit w hw (ch ',' :: rest ++ 0 :: behind) pre.length pre.length 0 (by omega)
  rw [hreads (pre.length + w.length + 1 + rest.length) (by omega), hloop, Nat.zero_add]
  have hnul : 0 ∉ w := fun h => (hw 0 h).1 rfl
  cases rest with
  | nil =>
    refine .past ?_ rfl ?_
    · intro u hu
      rw [List.mem_singleton.mp hu]
      exact Nat.zero_le _
    · intro hin
      rw [List.singleton_append, parseListReads_comma hlim] at hin
      have := hin (pre.length + w.length + 2) (List.mem_cons_of_mem _ (parseListReads_head _ _ _))
      simp only [List.length_nil] at this
      omega
  | cons c s =>
    have hfirst : laterItems [] (c :: s) = laterItems [c] s := by
      rw [laterItems, if_neg fun h => h.2 rfl]
      rfl
    obtain ⟨hc, hs⟩ : c ≠ 0 ∧ 0 ∉ s := by
      rw [List.mem_cons, not_or] at hrest
      exact ⟨fun h => hrest.1 h.symm, hrest.2⟩
    have hnext := scan_later hlim behind s [c] (List.cons_ne_nil _ _) (by rw [List.length_singleton]; omega)
      ⟨by rw [List.mem_singleton]; exact hc.symm, hs⟩ (pre ++ (w ++ [0]))
    have hdone : (pre ++ (w ++ [0])).length = pre.length + w.length + 1 := by
      rw [List.length_append, List.length_append, List.length_singleton]
      omega
    rw [hdone, List.length_singleton] at hnext
    rw [hfirst, List.cons_append, List.cons_append, parseListLoop_comma _ _ _ _ hlim, parseListReads_comma hlim]
    refine (hnext.push pre.length (pre.length + w.length)).imp ?_ ?_
    · rw [List.forall_mem_cons, List.length_cons]
      constructor
      · intro h
        exact ⟨by omega, fun p hp => by have := h p hp; omega⟩
      · intro h p hp
        have := h.2 p hp
        omega
    · rintro ⟨mem, hmem, htokens⟩
      refine ⟨w ++ 0 :: ([] ++ mem), ?_, .cons hnul ?_⟩
      · have hput := congrArg (fun m => putNuls m (parseListLoop lenLimit (s ++ 0 :: behind)
          (pre.length + w.length + 2) (pre.length + w.length + 1) 0).nuls)
          (set_comma pre w (c :: (s ++ 0 :: behind)) (ch ','))
        refine hput.trans (hmem.trans ?_)
        simp
      · rw [hdone] at htokens
        exact htokens

theorem ItemsAt.read {done m : Mem} {s : Split} {items : List Str} (h : ItemsAt done m s items) :
    s.starts.map (strAt (putNuls m s.nuls)) = items := by
  obtain ⟨mem, hmem, htokens⟩ := h
  rw [hmem]
  exact htokens.read done rfl

theorem parsedExactly_of {pre m : Mem} {v : Str} {behind : Mem} (hm : m = v ++ 0 :: behind) :
    ParsedExactly lenLimit pre v behind ↔
      ((parseListLoop lenLimit m pre.length pre.length 0).ret = 0 ↔ ItemsFit lenLimit v) ∧
      ((parseListLoop lenLimit m pre.length pre.length 0).ret = 0 →
        (parseListLoop lenLimit m pre.length pre.length 0).starts.map
          (strAt (putNuls (pre ++ m) (parseListLoop lenLimit m pre.length pre.length 0).nuls)) = listItems v) ∧
      ∀ p ∈ parseListReads lenLimit m pre.length 0, p ≤ pre.length + v.length := by
  subst hm
  unfold ParsedExactly parseListToArrayWithChecks
  simp only [List.drop_left]

theorem parsedExactly_one (hlim : 0 < lenLimit) (pre : Mem) {w : Str} (hnul : 0 ∉ w) (hw : ∀ b ∈ w, isComma b = false)
    (behind : Mem) : ParsedExactly lenLimit pre w behind := by
  have hw' : ∀ b ∈ w, b ≠ 0 ∧ b ≠ ch ',' :=
    fun b hb => ⟨fun h => hnul (h ▸ hb), fun h => by have := hw b hb; rw [h] at this; cases this⟩
  have hfit : ItemsFit lenLimit w ↔ w ≠ [] ∧ w.length < lenLimit := by
    unfold ItemsFit
    rw [(items_one hw).1]
    exact List.forall_mem_singleton
  rw [parsedExactly_of rfl, hfit, (items_one hw).1]
  by_cases hlong : lenLimit ≤ w.length
  · obtain ⟨hret, hreads⟩ := scan_long hw' (0 :: behind) pre.length pre.length 0 hlim (by omega)
    rw [hret]
    exact ⟨⟨fun h => absurd h (by decide), fun h => by omega⟩, fun h => absurd h (by decide), hreads⟩
  · obtain ⟨hloop, hreads⟩ := @scan_first lenLimit w hw' (0 :: behind) pre.length pre.length 0 (by omega)
    rw [hloop, hreads _ (Nat.le_refl _), parseListReads_nul, parseListLoop_nul, Nat.zero_add, parseListLoop.stop,
      if_neg (by omega)]
    have hinside : ∀ p ∈ [pre.length + w.length], p ≤ pre.length + w.length :=
      fun p hp => Nat.le_of_eq (List.mem_singleton.mp hp)
    by_cases hzero : w.length = 0
    · rw [if_pos hzero]
      have hnil : w = [] := List.length_eq_zero_iff.mp hzero
      exact ⟨⟨fun h => absurd h (by decide), fun h => absurd hnil h.1⟩, fun h => absurd h (by decide), hinside⟩
    · rw [if_neg hzero]
      refine ⟨⟨fun _ => ⟨fun h => hzero (h ▸ rfl), by omega⟩, fun _ => rfl⟩, fun _ => ?_, hinside⟩
      have hread : strAt (pre ++ (w ++ 0 :: behind)) pre.length = w := strAt_token hnul pre behind
      exact congrArg (fun s => [s]) hread

/-- The values that are parsed as they are written. -/
theorem parsedExactly_iff (lenLimit : Nat) (hlim : 0 < lenLimit) (pre : Mem) (v : Str) (hv : 0 ∉ v) (behind : Mem) :
    ParsedExactly lenLimit pre v behind ↔ ReadAsWritten lenLimit v := by
  obtain ⟨w, hw, rfl | ⟨rest, rfl⟩⟩ := exists_first_item v
  · exact ⟨fun _ => Or.inl (items_one hw).2.1, fun _ => parsedExactly_one hlim pre hv hw behind⟩
  have hnul : 0 ∉ w := fun h => hv (List.mem_append_left _ h)
  have hrest : 0 ∉ rest := fun h => hv (List.mem_append_right _ (List.mem_cons_of_mem _ h))
  have hw' : ∀ b ∈ w, b ≠ 0 ∧ b ≠ ch ',' :=
    fun b hb => ⟨fun h => hnul (h ▸ hb), fun h => by have := hw b hb; rw [h] at this; cases this⟩
  obtain ⟨hitems, hlater, hfirst⟩ := items_cons hw rest
  have hfit : ItemsFit lenLimit (w ++ ch ',' :: rest) ↔
      (w ≠ [] ∧ w.length < lenLimit) ∧ ∀ u ∈ listItems rest, u ≠ [] ∧ u.length < lenLimit := by
    unfold ItemsFit
    rw [hitems, List.forall_mem_cons]
  have hmem : w ++ (ch ',' :: rest ++ 0 :: behind) = (w ++ ch ',' :: rest) ++ 0 :: behind := by simp
  have hbound : pre.length + w.length + 1 + rest.length = pre.length + (w ++ ch ',' :: rest).length := by
    rw [List.length_append, List.length_cons]
    omega
  unfold ReadAsWritten
  rw [parsedExactly_of hmem, hlater, hfirst, hitems]
  rw [or_iff_right (laterItems_ne_nil [] rest)]
  by_cases hlong : lenLimit ≤ w.length
  · have hbad : ¬ ItemsFit lenLimit (w ++ ch ',' :: rest) := fun h => by have := (hfit.mp h).1.2; omega
    obtain ⟨hret, hreads⟩ := scan_long hw' (ch ',' :: rest ++ 0 :: behind) pre.length pre.length 0 hlim (by omega)
    rw [hret, if_neg hbad]
    refine ⟨fun _ => Or.inl hlong, fun _ => ⟨⟨fun h => absurd h (by decide), fun h => absurd h hbad⟩, fun h => absurd h (by decide), ?_⟩⟩
    intro p hp
    have := hreads p hp
    omega
  have hscan := @scan_behind_comma lenLimit (by omega) w rest hw' hrest (by omega) pre behind
  rw [hbound] at hscan
  by_cases hgood : ItemsFit lenLimit (w ++ ch ',' :: rest)
  · rw [if_pos hgood]
    obtain ⟨-, hrestfit⟩ := hfit.mp hgood
    have hsame : laterItems [] rest = listItems rest :=
      laterItems_eq (List.forall_mem_nil _) fun u hu => (hrestfit u hu).1
    cases hscan with
    | tooLong h ret hin =>
      obtain ⟨u, hu, hlen⟩ := h
      rw [hsame] at hu
      have := (hrestfit u hu).2
      omega
    | past h last hout =>
      rw [hsame] at last
      exact absurd rfl (hrestfit [] (List.mem_of_getLast? last)).1
    | single h u last hu ret hin =>
      rw [ret]
      exact ⟨fun h => absurd (h.1.mpr hgood) (by decide), fun h => absurd ⟨u, last, hu⟩ h⟩
    | taken h u last hu ret hin hread =>
      have hitemsread := hread.read
      rw [hsame] at hitemsread
      exact ⟨fun _ => not_singleLast last (by omega),
        fun _ => ⟨⟨fun _ => hgood, fun _ => ret⟩, fun _ => hitemsread, hin⟩⟩
  · rw [if_neg hgood]
    cases hscan with
    | tooLong h ret hin =>
      rw [ret]
      exact ⟨fun _ => Or.inr (Or.inl h), fun _ => ⟨⟨fun h => absurd h (by decide), fun h => absurd h hgood⟩, fun h => absurd h (by decide), hin⟩⟩
    | past h last hout =>
      refine ⟨fun hp => absurd hp.2.2 hout, ?_⟩
      rintro (hlong' | ⟨u, hu, hlen⟩ | hsingle)
      · omega
      · have := h u hu
        omega
      · exact absurd hsingle (not_singleLast last (by simp))
    | single h u last hu ret hin =>
      rw [ret]
      exact ⟨fun _ => Or.inr (Or.inr ⟨u, last, hu⟩),
        fun _ => ⟨⟨fun h => absurd h (by decide), fun h => absurd h hgood⟩, fun h => absurd h (by decide), hin⟩⟩
    | taken h u last hu ret hin hread =>
      refine ⟨fun hp => absurd (hp.1.mp ret) hgood, ?_⟩
      rintro (hlong' | ⟨u', hu', hlen⟩ | hsingle)
      · omega
      · have := h u' hu'
        omega
      · exact absurd hsingle (not_singleLast last (by omega))

theorem aliases_parsedExactly :
    0 < HOSTALIASZ ∧ 0 ∉ ascii "a,host2,,h" ∧
      (ParsedExactly HOSTALIASZ [] (ascii "a,host2") [] ∧ ¬ ParsedExactly HOSTALIASZ [] (ascii "a,host2,,h") []) := by
  have hfacts : 0 ∉ ascii "a,host2" ∧ 0 ∉ ascii "a,host2,,h" ∧ itemsBehind (ascii "a,host2") = [ascii "host2"] ∧
      itemsBehind (ascii "a,host2,,h") = [ascii "host2", ascii ",h"] ∧ firstItem (ascii "a,host2,,h") = ascii "a" ∧
      ItemsFit HOSTALIASZ (ascii "a,host2") ∧ ¬ ItemsFit HOSTALIASZ (ascii "a,host2,,h") ∧
      ¬ SingleLast [ascii "host2"] ∧ ¬ SingleLast [ascii "host2", ascii ",h"] ∧
      (∀ w ∈ [ascii "host2", ascii ",h"], w.length ≤ HOSTALIASZ) ∧ (ascii "a").length < HOSTALIASZ := by
    decide +kernel
  obtain ⟨hnul, hnul', hone, htwo, hfirst, hfit, hunfit, hlast, hlast', hshort, hshort'⟩ := hfacts
  refine ⟨by decide, hnul', (parsedExactly_iff HOSTALIASZ (by decide) [] _ hnul []).mpr ?_, fun h => ?_⟩
  · unfold ReadAsWritten
    rw [hone, if_pos hfit]
    exact Or.inr hlast
  · have hread := (parsedExactly_iff HOSTALIASZ (by decide) [] _ hnul' []).mp h
    unfold ReadAsWritten at hread
    rw [htwo, hfirst, if_neg hunfit] at hread
    rcases hread with hread | hread | ⟨w, hw, hlen⟩ | hread
    · cases hread
    · omega
    · have := hshort w hw
      omega
    · exact hlast' hread

/-- Two aliases of one character each are refused. -/
theorem single_last_refused :
    ¬ ∀ (lenLimit : Nat) (pre : Mem) (v : Str) (behind : Mem), 0 < lenLimit → 0 ∉ v →
      ParsedExactly lenLimit pre v behind := by
  intro h
  have hfacts : 0 ∉ ascii "a,b" ∧ ItemsFit HOSTALIASZ (ascii "a,b") ∧
      (parseListToArrayWithChecks ([] ++ (ascii "a,b" ++ 0 :: [])) 0 HOSTALIASZ).ret ≠ 0 := by
    decide +kernel
  obtain ⟨hnul, hfit, hret⟩ := hfacts
  exact hret ((h HOSTALIASZ [] (ascii "a,b") [] (by decide) hnul).1.mpr hfit)

end ModCluster
