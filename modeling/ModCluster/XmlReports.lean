import Mathlib.Tactic.MkIffOfInductiveProp
import ModCluster.Handler
import ModCluster.Lib.XmlReport
import ModCluster.StoredTimes

/-!
# The reports as XML documents

DUMP and INFO call themselves XML 1.0. `decodeenc` lets an ampersand and most control
characters through, and unlike the manager page the reports escape nothing. A reader of XML
gets the records back as long as no string of them is in its way.
-/

open CString Slotmem Slotmem.Table Markup Xml

namespace ModCluster

/-! ## What the documents should say -/

def dumpBalancerStored (ou : Balancerinfo) : List Str :=
  [decimalInt ou.id, ou.balancer, flag ou.stickySession, ou.stickySessionCookie, ou.stickySessionPath,
    flag ou.stickySessionRemove, flag ou.stickySessionForce, decimalInt (ou.timeout.tdiv 1000000),
    decimalInt ou.maxattempts]

def dumpNodeStored (ou : Nodeinfo) : List Str :=
  [decimalInt ou.mess.id, ou.mess.balancer, ou.mess.jvmRoute, ou.mess.domain, ou.mess.host, ou.mess.port, ou.mess.type,
    decimalInt ou.mess.flushpackets, decimalInt (ou.mess.flushwait.tdiv 1000), decimalInt (ou.mess.ping.tdiv 1000000),
    decimalInt ou.mess.smax, decimalInt (ou.mess.ttl.tdiv 1000000), decimalInt (ou.mess.timeout.tdiv 1000000)]

def dumpHostStored (ou : Hostinfo) : List Str := [decimalInt ou.id, ou.host, decimalInt ou.vhost, decimalInt ou.node]

def dumpContextStored (ou : Contextinfo) : List Str :=
  [decimalInt ou.id, ou.context, decimalInt ou.vhost, decimalInt ou.node, decimalInt (contextStatusCode ou.status),
    contextStatusToString ou.status]

def dumpStored (ts : Tables) : List (List (List Str)) :=
  [ts.balancers.records.map dumpBalancerStored, ts.nodes.records.map dumpNodeStored,
    ts.hosts.records.map dumpHostStored, ts.contexts.records.map dumpContextStored]

/-- The records in slot order, with all that is stored of what DUMP prints. -/
def dumpDocument (ts : Tables) : List (Str × Tag) := dumpReport.document (dumpStored ts)

def proxyStatStored (proxystat : ProxyStat) : List Str :=
  [decimalInt proxystat.elected, decimalInt proxystat.read, decimalInt proxystat.transferred, decimalInt proxystat.busy,
    decimalInt proxystat.lbfactor]

def infoNodeStored (stat : Nodemess → ProxyStat) (ou : Nodeinfo) : List Str :=
  [decimalInt ou.mess.id, ou.mess.jvmRoute, ou.mess.balancer, ou.mess.domain, ou.mess.host, ou.mess.port, ou.mess.type,
    flushToStr ou.mess.flushpackets, decimalInt (ou.mess.flushwait.tdiv 1000), decimalInt (ou.mess.ping.tdiv 1000000),
    decimalInt ou.mess.smax, decimalInt (ou.mess.ttl.tdiv 1000000)] ++ (proxyStatStored (stat ou.mess) ++ [])

def infoHostStored (ou : Hostinfo) : List Str := [decimalInt ou.vhost, ou.host, decimalInt ou.node]

def infoContextStored (ou : Contextinfo) : List Str :=
  [decimalInt ou.id, decimalInt (contextStatusCode ou.status), contextStatusToString ou.status, ou.context,
    decimalInt ou.node, decimalInt ou.vhost]

def infoStored (stat : Nodemess → ProxyStat) (ts : Tables) : List (List (List Str)) :=
  [ts.nodes.records.map (infoNodeStored stat), ts.hosts.records.map infoHostStored,
    ts.contexts.records.map infoContextStored]

def infoDocument (stat : Nodemess → ProxyStat) (ts : Tables) : List (Str × Tag) :=
  infoReport.document (infoStored stat ts)

/-! ## What gets through -/

/-- In an attribute: not too long, in the encoding, and neither markup nor white space that
a reader changes. -/
structure AttributeKept (size : Nat) (s : Str) : Prop where
  length : s.length ≤ size
  plain : ∀ b ∈ s, b ≠ ch '<' ∧ b ≠ ch '&' ∧ b ≠ ch '"' ∧ b ≠ 9 ∧ b ≠ 10
  stable : encoded s = true ∧ 13 ∉ s

structure TextKept (size : Nat) (s : Str) : Prop where
  length : s.length ≤ size
  plain : ∀ b ∈ s, b ≠ ch '<' ∧ b ≠ ch '&'
  closed : ¬ ascii "]]>" <:+: s
  stable : encoded s = true ∧ 13 ∉ s

/-- What DUMP prints of the records is read back as it is stored. -/
@[mk_iff]
structure DumpKept (httpd : Httpd) (ts : Tables) : Prop where
  balancers : ∀ b ∈ ts.balancers.records, AttributeKept BALANCERSZ b.balancer ∧
    TextKept COOKNAMESZ b.stickySessionCookie ∧ TextKept PATHNAMESZ b.stickySessionPath ∧
    FitsInt (b.timeout.tdiv 1000000)
  nodes : ∀ n ∈ ts.nodes.records, TextKept BALANCERSZ n.mess.balancer ∧ TextKept httpd.routeSize n.mess.jvmRoute ∧
    TextKept DOMAINNDSZ n.mess.domain ∧ TextKept HOSTNODESZ n.mess.host ∧ TextKept PORTNODESZ n.mess.port ∧
    TextKept SCHEMENDSZ n.mess.type ∧ FitsInt (n.mess.ping.tdiv 1000000) ∧ FitsInt (n.mess.ttl.tdiv 1000000) ∧
    FitsInt (n.mess.timeout.tdiv 1000000)
  hosts : ∀ h ∈ ts.hosts.records, AttributeKept HOSTALIASZ h.host
  contexts : ∀ c ∈ ts.contexts.records, AttributeKept CONTEXTSZ c.context

@[mk_iff]
structure StatKept (proxystat : ProxyStat) : Prop where
  elected : FitsInt proxystat.elected
  read : FitsInt proxystat.read
  transferred : FitsInt proxystat.transferred
  busy : FitsInt proxystat.busy

@[mk_iff]
structure InfoKept (httpd : Httpd) (stat : Nodemess → ProxyStat) (ts : Tables) : Prop where
  nodes : ∀ n ∈ ts.nodes.records, AttributeKept httpd.routeSize n.mess.jvmRoute ∧ TextKept BALANCERSZ n.mess.balancer ∧
    TextKept DOMAINNDSZ n.mess.domain ∧ TextKept HOSTNODESZ n.mess.host ∧ TextKept PORTNODESZ n.mess.port ∧
    TextKept SCHEMENDSZ n.mess.type ∧ FitsInt (n.mess.ping.tdiv 1000000) ∧ FitsInt (n.mess.ttl.tdiv 1000000) ∧
    StatKept (stat n.mess)
  hosts : ∀ h ∈ ts.hosts.records, AttributeKept HOSTALIASZ h.host
  contexts : ∀ c ∈ ts.contexts.records, TextKept CONTEXTSZ c.context

section Kept

variable {size : Nat} {s : Str}

theorem printed_eq_iff : printed size s = s ↔ s.length ≤ size := List.take_eq_self_iff s

theorem plainValue_iff : PlainValue s ↔ ∀ b ∈ s, b ≠ ch '<' ∧ b ≠ ch '&' ∧ b ≠ ch '"' ∧ b ≠ 9 ∧ b ≠ 10 ∧ b ≠ 13 := by
  unfold PlainValue isPlain
  simp only [Bool.and_eq_true, bne_iff_ne, and_assoc]

theorem attributeKept_iff :
    AttributeKept size s ↔ printed size s = s ∧ PlainValue (printed size s) ∧ Stable (printed size s) := by
  rw [printed_eq_iff, plainValue_iff]
  constructor
  · intro h
    have hs : printed size s = s := printed_eq_iff.2 h.length
    rw [hs]
    refine ⟨h.length, fun b hb => ?_, h.stable⟩
    obtain ⟨hless, hand, hquote, htab, hfeed⟩ := h.plain b hb
    exact ⟨hless, hand, hquote, htab, hfeed, fun heq => h.stable.2 (heq ▸ hb)⟩
  · rintro ⟨hlength, hplain, hstable⟩
    rw [printed_eq_iff.2 hlength] at hplain hstable
    refine ⟨hlength, fun b hb => ?_, hstable⟩
    obtain ⟨hless, hand, hquote, htab, hfeed, -⟩ := hplain b hb
    exact ⟨hless, hand, hquote, htab, hfeed⟩

theorem textKept_iff :
    TextKept size s ↔ printed size s = s ∧ PlainText (printed size s) ∧ Stable (printed size s) := by
  rw [printed_eq_iff, plainText_iff]
  constructor
  · intro h
    have hs : printed size s = s := printed_eq_iff.2 h.length
    rw [hs]
    exact ⟨h.length, ⟨h.plain, h.closed⟩, h.stable⟩
  · rintro ⟨hlength, hplain, hstable⟩
    rw [printed_eq_iff.2 hlength] at hplain hstable
    exact ⟨hlength, hplain.1, hplain.2, hstable⟩

instance : Decidable (AttributeKept size s) := decidable_of_iff _ attributeKept_iff.symm

instance : Decidable (TextKept size s) := decidable_of_iff _ textKept_iff.symm

theorem printed_printedFor (size : Nat) (s : Str) : PrintedFor (printed size s) s := .cut (List.take_prefix _ _)

/-! ### Numbers -/

theorem neutral_decimalInt (n : Int) : Neutral (decimalInt n) := by
  have hdigit (b : Byte) (hb : isDigit b = true) : isNeutral b = true := by
    have hlow : b < 128 := by
      unfold isDigit at hb
      simp only [Bool.and_eq_true, decide_eq_true_eq] at hb
      exact UInt8.lt_of_le_of_lt hb.2 (by decide)
    simp [isNeutral, isNameByte, hb, hlow]
  refine neutral_of_bytes fun b hb => ?_
  unfold decimalInt at hb
  split at hb
  · rcases List.mem_cons.1 hb with rfl | hb
    · decide
    · exact hdigit b (isDigit_decimal _ b hb)
  · exact hdigit b (isDigit_decimal _ b hb)

theorem neutral_of_all {s : Str} (h : s.all isNeutral = true) : Neutral s := neutral_of_bytes (List.all_eq_true.1 h)

theorem neutral_flag (b : Bool) : Neutral (flag b) := by
  cases b <;> exact neutral_of_all (by decide)

theorem neutral_contextStatus (status : ContextStatus) : Neutral (contextStatusToString status) := by
  cases status <;> exact neutral_of_all (by decide)

theorem neutral_flush (flush : Int) : Neutral (flushToStr flush) := by
  unfold flushToStr
  split
  · exact neutral_of_all (by decide)
  split <;> exact neutral_of_all (by decide)

theorem decimalInt_injective : Function.Injective decimalInt := by
  have hminus (m n : Nat) : ch '-' :: decimal m ≠ decimal n := by
    intro h
    have hmem : ch '-' ∈ decimal n := h ▸ List.mem_cons_self
    exact absurd (isDigit_decimal n _ hmem) (by decide)
  intro m n h
  unfold decimalInt at h
  split at h
  · split at h
    · have habs := decimal_injective (List.cons.inj h).2
      omega
    · exact absurd h (hminus _ _)
  · split at h
    · exact absurd h.symm (hminus _ _)
    · have habs := decimal_injective h
      omega

theorem decimal_toInt32 (n : Int) : decimalInt (toInt32 n) = decimalInt n ↔ FitsInt n := by
  rw [decimalInt_injective.eq_iff, toInt32_eq_iff]

theorem decimal_seconds (t : Int) : decimalInt (seconds t) = decimalInt (t.tdiv 1000000) ↔ FitsInt (t.tdiv 1000000) :=
  decimal_toInt32 _

end Kept

instance (httpd : Httpd) (ts : Tables) : Decidable (DumpKept httpd ts) :=
  decidable_of_iff _ (dumpKept_iff httpd ts).symm

instance (proxystat : ProxyStat) : Decidable (StatKept proxystat) := decidable_of_iff _ (statKept_iff proxystat).symm

instance (httpd : Httpd) (stat : Nodemess → ProxyStat) (ts : Tables) : Decidable (InfoKept httpd stat ts) :=
  decidable_of_iff _ (infoKept_iff httpd stat ts).symm

/-! ## The reports as reports in markup -/

def xmlDeclared : Str := ascii "<?xml version=\"1.0\" standalone=\"yes\" ?>"

theorem xmlDeclared_facts :
    Stable xmlDeclared ∧ Xml.read xmlProlog = none ∧ dumpReport.named = true ∧ infoReport.named = true := by
  decide +kernel

theorem xmlDeclared_declares : IsDeclaration xmlDeclared where
  stable := xmlDeclared_facts.1
  read s := by rfl

theorem xmlProlog_eq : xmlProlog = xmlDeclared ++ [10] := by
  simp [xmlProlog, xmlDeclared, ascii, ch]

theorem dumpReport_element : dumpReport.IsElement := by
  refine Report.isElement_of_named xmlDeclared_facts.2.2.1 ?_
  simp only [dumpReport, List.forall_mem_cons, List.not_mem_nil, false_implies, implies_true, and_true]
  refine ⟨fun inner st => ?_, fun inner st => ?_, fun inner st => ?_, fun inner st => ?_⟩
  · simp [dumpBalancerRow, plainField, rowInside, Part.inside]
  · simp [dumpNodeRow, plainField, rowInside, Part.inside]
  · simp [dumpHostRow, plainField, rowInside, Part.inside]
  · simp [dumpContextRow, plainField, rowInside, Part.inside]

theorem infoReport_element : infoReport.IsElement := by
  refine Report.isElement_of_named xmlDeclared_facts.2.2.2 ?_
  simp only [infoReport, List.forall_mem_cons, List.not_mem_nil, false_implies, implies_true, and_true]
  refine ⟨fun inner st => ?_, fun inner st => ?_, fun inner st => ?_⟩
  · simp [infoNodeRow, proxyStatRow, plainField, rowInside, Part.inside]
  · simp [infoHostRow, rowInside, Part.inside]
  · simp [infoContextRow, plainField, rowInside, Part.inside]

section Printed

variable {httpd : Httpd} {ts : Tables} {stat : Nodemess → ProxyStat}

theorem forall₂_map {α β : Type} {R : β → β → Prop} {f g : α → β} (xs : List α) (h : ∀ a, R (f a) (g a)) :
    List.Forall₂ R (xs.map f) (xs.map g) := by
  induction xs with
  | nil => exact .nil
  | cons a xs ih => exact .cons (h a) ih

theorem dump_printed : List.Forall₂ (List.Forall₂ (List.Forall₂ PrintedFor)) (dumpValues httpd ts) (dumpStored ts) := by
  refine .cons (forall₂_map _ fun b => ?_) (.cons (forall₂_map _ fun n => ?_) (.cons (forall₂_map _ fun h => ?_)
    (.cons (forall₂_map _ fun c => ?_) .nil)))
  · simp [dumpBalancerValues, dumpBalancerStored, printed_printedFor, PrintedFor.refl,
      (neutral_decimalInt _).printedFor]
  · simp [dumpNodeValues, dumpNodeStored, printed_printedFor, PrintedFor.refl, (neutral_decimalInt _).printedFor]
  · simp [dumpHostValues, dumpHostStored, printed_printedFor, PrintedFor.refl]
  · simp [dumpContextValues, dumpContextStored, printed_printedFor, PrintedFor.refl]

theorem info_printed :
    List.Forall₂ (List.Forall₂ (List.Forall₂ PrintedFor)) (infoValues httpd stat ts) (infoStored stat ts) := by
  refine .cons (forall₂_map _ fun n => ?_) (.cons (forall₂_map _ fun h => ?_) (.cons (forall₂_map _ fun c => ?_) .nil))
  · simp [infoNodeValues, infoNodeStored, proxyStatValues, proxyStatStored, printed_printedFor, PrintedFor.refl,
      (neutral_decimalInt _).printedFor]
  · simp [infoHostValues, infoHostStored, printed_printedFor, PrintedFor.refl]
  · simp [infoContextValues, infoContextStored, printed_printedFor, PrintedFor.refl]

/-! ## One record -/

/-- What is printed of a record is what is stored, and stands as it is. -/
def RowKept (row : List Part) (values stored : List Str) : Prop :=
  values = stored ∧ RowPlain row values ∧ ∀ v ∈ values, Stable v

@[simp]
theorem plainText_decimalInt (n : Int) : PlainText (decimalInt n) := (neutral_decimalInt n).text

@[simp]
theorem plainValue_decimalInt (n : Int) : PlainValue (decimalInt n) := (neutral_decimalInt n).value

@[simp]
theorem stable_decimalInt (n : Int) : Stable (decimalInt n) := (neutral_decimalInt n).stable

@[simp]
theorem plainText_flag (b : Bool) : PlainText (flag b) := (neutral_flag b).text

@[simp]
theorem stable_flag (b : Bool) : Stable (flag b) := (neutral_flag b).stable

@[simp]
theorem plainText_contextStatus (status : ContextStatus) : PlainText (contextStatusToString status) :=
  (neutral_contextStatus status).text

@[simp]
theorem stable_contextStatus (status : ContextStatus) : Stable (contextStatusToString status) :=
  (neutral_contextStatus status).stable

@[simp]
theorem plainText_flush (flush : Int) : PlainText (flushToStr flush) := (neutral_flush flush).text

@[simp]
theorem stable_flush (flush : Int) : Stable (flushToStr flush) := (neutral_flush flush).stable

theorem dumpBalancer_kept (ou : Balancerinfo) :
    RowKept dumpBalancerRow (dumpBalancerValues ou) (dumpBalancerStored ou) ↔
      AttributeKept BALANCERSZ ou.balancer ∧ TextKept COOKNAMESZ ou.stickySessionCookie ∧
        TextKept PATHNAMESZ ou.stickySessionPath ∧ FitsInt (ou.timeout.tdiv 1000000) := by
  rw [attributeKept_iff, textKept_iff, textKept_iff, ← decimal_seconds]
  simp [RowKept, dumpBalancerRow, dumpBalancerValues, dumpBalancerStored, plainField, RowPlain, Part.Plain]
  grind

theorem dumpNode_kept (ou : Nodeinfo) : RowKept dumpNodeRow (dumpNodeValues httpd ou) (dumpNodeStored ou) ↔
    TextKept BALANCERSZ ou.mess.balancer ∧ TextKept httpd.routeSize ou.mess.jvmRoute ∧
    TextKept DOMAINNDSZ ou.mess.domain ∧ TextKept HOSTNODESZ ou.mess.host ∧ TextKept PORTNODESZ ou.mess.port ∧
    TextKept SCHEMENDSZ ou.mess.type ∧ FitsInt (ou.mess.ping.tdiv 1000000) ∧ FitsInt (ou.mess.ttl.tdiv 1000000) ∧
    FitsInt (ou.mess.timeout.tdiv 1000000) := by
  rw [textKept_iff, textKept_iff, textKept_iff, textKept_iff, textKept_iff, textKept_iff, ← decimal_seconds,
    ← decimal_seconds, ← decimal_seconds]
  simp [RowKept, dumpNodeRow, dumpNodeValues, dumpNodeStored, plainField, RowPlain, Part.Plain, milliseconds]
  grind

theorem dumpHost_kept (ou : Hostinfo) :
    RowKept dumpHostRow (dumpHostValues ou) (dumpHostStored ou) ↔ AttributeKept HOSTALIASZ ou.host := by
  rw [attributeKept_iff]
  simp [RowKept, dumpHostRow, dumpHostValues, dumpHostStored, plainField, RowPlain, Part.Plain]

theorem dumpContext_kept (ou : Contextinfo) :
    RowKept dumpContextRow (dumpContextValues ou) (dumpContextStored ou) ↔ AttributeKept CONTEXTSZ ou.context := by
  rw [attributeKept_iff]
  simp [RowKept, dumpContextRow, dumpContextValues, dumpContextStored, plainField, RowPlain, Part.Plain]

theorem proxyStatRow_kept {vs us : List Str} (hvs : vs.length = 5) (hneutral : ∀ v ∈ vs, Neutral v) :
    RowKept proxyStatRow vs us ↔ vs = us := by
  obtain ⟨elected, read, transferred, busy, load, rfl⟩ : ∃ a b c d e, vs = [a, b, c, d, e] := by
    match vs, hvs with
    | [a, b, c, d, e], _ => exact ⟨a, b, c, d, e, rfl⟩
  refine and_iff_left ⟨?_, fun v hv => (hneutral v hv).stable⟩
  simp only [List.forall_mem_cons] at hneutral
  simp [proxyStatRow, plainField, RowPlain, Part.Plain, hneutral.1.text, hneutral.2.1.text, hneutral.2.2.1.text,
    hneutral.2.2.2.1.text, hneutral.2.2.2.2.1.text]

theorem proxyStat_kept (proxystat : ProxyStat) :
    RowKept proxyStatRow (proxyStatValues proxystat) (proxyStatStored proxystat) ↔ StatKept proxystat := by
  have hneutral : ∀ v ∈ proxyStatValues proxystat, Neutral v := by
    simp only [proxyStatValues, List.forall_mem_cons, neutral_decimalInt, List.not_mem_nil, false_implies, implies_true,
      and_true]
  rw [proxyStatRow_kept rfl hneutral]
  simp only [proxyStatValues, proxyStatStored, List.cons.injEq, decimal_toInt32, and_true]
  exact (statKept_iff proxystat).symm

theorem rowKept_append {row₁ row₂ : List Part} {vs vs' us us' : List Str} (hvs : vs.length = rowArity row₁)
    (hlen : vs.length = vs'.length) :
    RowKept (row₁ ++ row₂) (vs ++ us) (vs' ++ us') ↔ RowKept row₁ vs vs' ∧ RowKept row₂ us us' := by
  unfold RowKept
  rw [List.append_eq_append_iff_of_size_eq_left hlen, rowPlain_append hvs, List.forall_mem_append]
  grind

theorem infoNode_kept (ou : Nodeinfo) :
    RowKept infoNodeRow (infoNodeValues httpd stat ou) (infoNodeStored stat ou) ↔
      AttributeKept httpd.routeSize ou.mess.jvmRoute ∧ TextKept BALANCERSZ ou.mess.balancer ∧
      TextKept DOMAINNDSZ ou.mess.domain ∧ TextKept HOSTNODESZ ou.mess.host ∧ TextKept PORTNODESZ ou.mess.port ∧
      TextKept SCHEMENDSZ ou.mess.type ∧ FitsInt (ou.mess.ping.tdiv 1000000) ∧ FitsInt (ou.mess.ttl.tdiv 1000000) ∧
      StatKept (stat ou.mess) := by
  have hclosing : RowKept [.closing (ascii "Node")] [] [] := ⟨rfl, ⟨trivial, trivial⟩, nofun⟩
  unfold infoNodeRow infoNodeValues infoNodeStored
  rw [rowKept_append (by rfl) (by simp only [List.length_cons, List.length_nil]), rowKept_append (by rfl)
    (by simp only [proxyStatValues, proxyStatStored, List.length_cons, List.length_nil]), proxyStat_kept,
    attributeKept_iff, textKept_iff, textKept_iff, textKept_iff, textKept_iff, textKept_iff, ← decimal_seconds,
    ← decimal_seconds, and_iff_left hclosing]
  simp [RowKept, plainField, RowPlain, Part.Plain, milliseconds]
  grind

theorem infoHost_kept (ou : Hostinfo) :
    RowKept infoHostRow (infoHostValues ou) (infoHostStored ou) ↔ AttributeKept HOSTALIASZ ou.host := by
  rw [attributeKept_iff]
  simp [RowKept, infoHostRow, infoHostValues, infoHostStored, RowPlain, Part.Plain]

theorem infoContext_kept (ou : Contextinfo) :
    RowKept infoContextRow (infoContextValues ou) (infoContextStored ou) ↔ TextKept CONTEXTSZ ou.context := by
  rw [textKept_iff]
  simp [RowKept, infoContextRow, infoContextValues, infoContextStored, plainField, RowPlain, Part.Plain]

/-! ## All records -/

/-- A section keeps its records when each of them is kept. -/
theorem section_kept {α : Type} (row : List Part) (f g : α → List Str) (xs : List α) :
    (xs.map f = xs.map g ∧ (∀ vs ∈ xs.map f, RowPlain row vs) ∧ ∀ v ∈ (xs.map f).flatten, Stable v) ↔
      ∀ a ∈ xs, RowKept row (f a) (g a) := by
  simp only [RowKept, forall_and, List.map_inj_left, List.forall_mem_map, List.forall_mem_flatten]

theorem dump_kept_iff :
    (dumpValues httpd ts = dumpStored ts ∧ dumpReport.Plain (dumpValues httpd ts) ∧
      ∀ v ∈ (dumpValues httpd ts).flatten.flatten, Stable v) ↔ DumpKept httpd ts := by
  have hkept : DumpKept httpd ts ↔
      (∀ b ∈ ts.balancers.records, RowKept dumpBalancerRow (dumpBalancerValues b) (dumpBalancerStored b)) ∧
      (∀ n ∈ ts.nodes.records, RowKept dumpNodeRow (dumpNodeValues httpd n) (dumpNodeStored n)) ∧
      (∀ h ∈ ts.hosts.records, RowKept dumpHostRow (dumpHostValues h) (dumpHostStored h)) ∧
      ∀ c ∈ ts.contexts.records, RowKept dumpContextRow (dumpContextValues c) (dumpContextStored c) := by
    simp only [dumpBalancer_kept, dumpNode_kept, dumpHost_kept, dumpContext_kept]
    exact dumpKept_iff httpd ts
  rw [hkept, ← section_kept, ← section_kept, ← section_kept, ← section_kept]
  simp only [dumpValues, dumpStored, Report.Plain, dumpReport, Section.Plain, List.cons.injEq, List.forall₂_cons,
    List.Forall₂.nil, List.flatten_cons, List.flatten_nil, List.flatten_append, List.forall_mem_append,
    List.not_mem_nil, false_implies, implies_true, and_true]
  grind

theorem info_kept_iff :
    (infoValues httpd stat ts = infoStored stat ts ∧ infoReport.Plain (infoValues httpd stat ts) ∧
      ∀ v ∈ (infoValues httpd stat ts).flatten.flatten, Stable v) ↔ InfoKept httpd stat ts := by
  have hkept : InfoKept httpd stat ts ↔
      (∀ n ∈ ts.nodes.records, RowKept infoNodeRow (infoNodeValues httpd stat n) (infoNodeStored stat n)) ∧
      (∀ h ∈ ts.hosts.records, RowKept infoHostRow (infoHostValues h) (infoHostStored h)) ∧
      ∀ c ∈ ts.contexts.records, RowKept infoContextRow (infoContextValues c) (infoContextStored c) := by
    simp only [infoNode_kept, infoHost_kept, infoContext_kept]
    exact infoKept_iff httpd stat ts
  rw [hkept, ← section_kept, ← section_kept, ← section_kept]
  simp only [infoValues, infoStored, Report.Plain, infoReport, Section.Plain, List.cons.injEq, List.forall₂_cons,
    List.Forall₂.nil, List.flatten_cons, List.flatten_nil, List.flatten_append, List.forall_mem_append,
    List.not_mem_nil, false_implies, implies_true, and_true]
  grind

variable {accept : Option Str}

theorem dump_xml_iff (hok : IdsOk ts) (hxml : dumpType accept = .xml) :
    Xml.read (processDump httpd ts accept) = some (dumpDocument ts) ↔ ts.balancers.size ≠ 0 ∧ DumpKept httpd ts := by
  by_cases hsize : ts.balancers.size = 0
  · have htext : processDump httpd ts accept = xmlProlog := by
      unfold processDump
      rw [hxml]
      simp only
      rw [if_pos hsize, List.append_nil]
      rfl
    rw [htext, xmlDeclared_facts.2.1]
    simp [hsize]
  · rw [processDump_write hok hxml hsize, dumpDocument,
      Report.xml_read_iff xmlDeclared_declares xmlProlog_eq dumpReport_element dump_fits dump_printed, dump_kept_iff]
    exact (and_iff_right hsize).symm

theorem info_xml_iff {transferred : WorkerShared → Nat} {sv : Server} (hok : IdsOk ts) (hxml : dumpType accept = .xml) :
    Xml.read (processInfo httpd transferred ts sv accept) = some (infoDocument (proxyStat transferred ts sv) ts) ↔
      ts.nodes.size ≠ 0 ∧ InfoKept httpd (proxyStat transferred ts sv) ts := by
  by_cases hsize : ts.nodes.size = 0
  · have htext : processInfo httpd transferred ts sv accept = xmlProlog := by
      unfold processInfo
      rw [hxml]
      simp only
      rw [if_pos hsize, List.append_nil]
      rfl
    rw [htext, xmlDeclared_facts.2.1]
    simp [hsize]
  · rw [processInfo_write hok hxml hsize, infoDocument,
      Report.xml_read_iff xmlDeclared_declares xmlProlog_eq infoReport_element info_fits info_printed, info_kept_iff]
    exact (and_iff_right hsize).symm

/-! ## Runs -/

/-- The tables after any messages that meet the demand. -/
def MessagesReach (httpd : Httpd) (D : Demand) (ts : Tables) : Prop :=
  ∃ sz, Relation.ReflTransGen (McmpStep httpd D) (emptyTables sz) ts

theorem MessagesReach.idsOk {D : Demand} (h : MessagesReach httpd D ts) : IdsOk ts := by
  obtain ⟨sz, h⟩ := h
  induction h with
  | refl => exact idsOk_empty sz
  | tail _ hstep ih => exact (hstep.edits ih).idsOk ih

/-- After any messages, a reader of XML gets back from DUMP and INFO what is stored exactly
when the tables have room and nothing stored is in its way. -/
theorem messages_reports_read (httpd : Httpd) (D : Demand) (transferred : WorkerShared → Nat) (sv : Server)
    (accept : Option Str) (ts : Tables) (h : MessagesReach httpd D ts) (hxml : dumpType accept = .xml) :
    (Xml.read (processDump httpd ts accept) = some (dumpDocument ts) ∧
      Xml.read (processInfo httpd transferred ts sv accept) = some (infoDocument (proxyStat transferred ts sv) ts)) ↔
      (ts.balancers.size ≠ 0 ∧ DumpKept httpd ts) ∧
        (ts.nodes.size ≠ 0 ∧ InfoKept httpd (proxyStat transferred ts sv) ts) := by
  rw [dump_xml_iff h.idsOk hxml, info_xml_iff h.idsOk hxml]

end Printed

/-- Bodies of printable ASCII. -/
def printableDemand : Demand where
  conf _ := True
  message input _ := ∀ b ∈ input.body, 32 ≤ b ∧ b < 127

theorem oneNode_kept :
    (∀ b ∈ registration.body, 32 ≤ b ∧ b < 127) ∧ dumpType (some XML_CONTENT_TYPE) = .xml ∧
      (oneNode.balancers.size ≠ 0 ∧ DumpKept plainHttpd oneNode) ∧
      (oneNode.nodes.size ≠ 0 ∧ InfoKept plainHttpd (proxyStat (fun _ => 0) oneNode ⟨[]⟩) oneNode) := by
  decide +kernel

theorem oneNode_messages : MessagesReach plainHttpd printableDemand oneNode := by
  obtain ⟨argv, hargv, htables⟩ := exists_of_map_ok page_facts.1
  have hsent : SentAs plainHttpd registration argv := ⟨smallestBuffer, ascii "CONFIG", hargv⟩
  refine ⟨⟨2, 2, 2, 2, 2⟩, .single ?_⟩
  rw [← htables]
  exact McmpStep.config Mconf.default 0 none registration argv hsent trivial oneNode_kept.1

theorem oneNode_xml_read :
    Xml.read (processDump plainHttpd oneNode (some XML_CONTENT_TYPE)) = some (dumpDocument oneNode) ∧
      Xml.read (processInfo plainHttpd (fun _ => 0) oneNode ⟨[]⟩ (some XML_CONTENT_TYPE)) =
        some (infoDocument (proxyStat (fun _ => 0) oneNode ⟨[]⟩) oneNode) := by
  obtain ⟨-, hxml, hkept⟩ := oneNode_kept
  exact (messages_reports_read plainHttpd printableDemand (fun _ => 0) ⟨[]⟩ _ oneNode oneNode_messages hxml).mpr hkept

/-- The node's domain comes in with an escaped ampersand. -/
def ampersand : Input := ⟨[ascii "JVMRoute=n1&Domain=a%26b"], .eos⟩

def ampersandNode : Tables :=
  (processConfig plainHttpd Mconf.default 0 (emptyTables ⟨2, 2, 2, 2, 2⟩) none
    (Argv.ofTokens [ascii "JVMRoute", ascii "n1", ascii "Domain", ascii "a&b"])).tables

theorem ampersand_facts :
    (receiveArgv plainHttpd smallestBuffer (ascii "CONFIG") ampersand).map (fun argv =>
        (processConfig plainHttpd Mconf.default 0 (emptyTables ⟨2, 2, 2, 2, 2⟩) none argv).tables) = .ok ampersandNode ∧
      (∀ b ∈ ampersand.body, 32 ≤ b ∧ b < 127) ∧ dumpType (some XML_CONTENT_TYPE) = .xml ∧
      Xml.read (processDump plainHttpd ampersandNode (some XML_CONTENT_TYPE)) = none := by
  decide +kernel

/-- DUMP is then not even well formed. -/
theorem ampersand_not_read : ∃ ts, MessagesReach plainHttpd printableDemand ts ∧
    dumpType (some XML_CONTENT_TYPE) = .xml ∧ Xml.read (processDump plainHttpd ts (some XML_CONTENT_TYPE)) = none := by
  obtain ⟨hreceive, hprintable, hxml, hread⟩ := ampersand_facts
  obtain ⟨argv, hargv, htables⟩ := exists_of_map_ok hreceive
  have hsent : SentAs plainHttpd ampersand argv := ⟨smallestBuffer, ascii "CONFIG", hargv⟩
  refine ⟨ampersandNode, ⟨⟨2, 2, 2, 2, 2⟩, .single ?_⟩, hxml, hread⟩
  rw [← htables]
  exact McmpStep.config Mconf.default 0 none ampersand argv hsent trivial hprintable

end ModCluster
