import Larder.Api.Catalog
import Larder.Api.Samples
import Larder.Proofs.Equality
import Larder.RecordSet

/-!
# Equal records in sets

A set looks for a record by its text, and then for one that is equal to it. That finds every equal
record only if equal records have one text, which is so as long as no zero in them has a sign: such
a set never holds two equal records, and it contains a record just when it holds an equal one
(`equal_records_agree`). With `0.0` and `-0.0` it is otherwise (`zeroReplies_kept_apart`).
-/

namespace Larder

/-- An operation on a set. -/
inductive RecordSet.Op where
  | insert (d : Datum)
  | erase (d : Datum)

namespace RecordSet

/-- The set after an operation. -/
def apply (s : RecordSet) : Op → RecordSet
  | .insert d => s.insert d
  | .erase d => s.erase d

/-- The set that operations make of the empty set, one after the other. -/
def run (ops : List Op) : RecordSet := ops.foldl apply empty

variable {c : Catalog} {t : Ty} {s : RecordSet} {a b d : Datum}

/-- The records are values of the type in which no zero has a sign, and no two of them are equal. -/
structure Distinct (c : Catalog) (t : Ty) (s : RecordSet) : Prop where
  typed : ∀ x ∈ s.records, HasType c t x
  unsigned : ∀ x ∈ s.records, x.Unsigned
  distinct : s.records.Pairwise fun x y => x.same y = false

/-- A set takes one record for the other just when they are equal. -/
theorem indistinct_eq_same (ha : HasType c t a) (hb : HasType c t b) (hzero : a.Unsigned)
    (hzero' : b.Unsigned) : a.indistinct b = a.same b := by
  unfold Datum.indistinct
  cases h : a.same b with
  | true => rw [ha.text_eq_of_same hb h hzero hzero', beq_self_eq_true, Bool.and_true]
  | false => rw [Bool.and_false]

namespace Distinct

theorem contains_iff (hs : s.Distinct c t) (hd : HasType c t d) (hzero : d.Unsigned) :
    s.contains d = true ↔ ∃ x ∈ s.records, d.same x = true := by
  unfold contains
  rw [List.any_eq_true]
  refine exists_congr fun x => and_congr_right fun hx => ?_
  rw [indistinct_eq_same hd (hs.typed x hx) hzero (hs.unsigned x hx)]

theorem empty : Distinct c t .empty := ⟨nofun, nofun, .nil⟩

theorem insert (hs : s.Distinct c t) (hd : HasType c t d) (hzero : d.Unsigned) :
    (s.insert d).Distinct c t := by
  unfold RecordSet.insert
  split
  · exact hs
  · rename_i hnot
    rw [hs.contains_iff hd hzero] at hnot
    -- the set has looked from the new record at the old ones; equality goes both ways
    have hnew : ∀ x ∈ s.records, x.same d = false := by
      intro x hx
      rw [← Bool.not_eq_true, (hs.typed x hx).same_comm hd]
      exact fun h => hnot ⟨x, hx, h⟩
    refine ⟨?_, ?_, List.pairwise_append.mpr ⟨hs.distinct, List.pairwise_singleton _ _, ?_⟩⟩
    · simpa [or_imp, forall_and] using ⟨hs.typed, hd⟩
    · simpa [or_imp, forall_and] using ⟨hs.unsigned, hzero⟩
    · simpa using hnew

theorem erase (hs : s.Distinct c t) (d : Datum) : (s.erase d).Distinct c t where
  typed x hx := hs.typed x (List.mem_filter.mp hx).1
  unsigned x hx := hs.unsigned x (List.mem_filter.mp hx).1
  distinct := hs.distinct.filter _

/-- An operation leaves the records distinct. -/
theorem apply (hs : s.Distinct c t) {op : Op}
    (hop : ∀ d, op = .insert d → HasType c t d ∧ d.Unsigned) : (s.apply op).Distinct c t := by
  cases op with
  | insert d =>
      obtain ⟨hd, hzero⟩ := hop d rfl
      exact hs.insert hd hzero
  | erase d => exact hs.erase d

theorem foldl {ops : List Op} (hs : s.Distinct c t)
    (hops : ∀ d, .insert d ∈ ops → HasType c t d ∧ d.Unsigned) :
    (ops.foldl RecordSet.apply s).Distinct c t := by
  induction ops generalizing s with
  | nil => exact hs
  | cons op rest ih =>
      have hop : ∀ d, op = .insert d → HasType c t d ∧ d.Unsigned := by
        intro d hd
        exact hops d (hd ▸ List.mem_cons_self)
      exact ih (hs.apply hop) fun d hd => hops d (List.mem_cons_of_mem _ hd)

end Distinct

theorem run_distinct {ops : List Op}
    (hops : ∀ d, .insert d ∈ ops → HasType c t d ∧ d.Unsigned) : (run ops).Distinct c t :=
  Distinct.empty.foldl hops

end RecordSet

/-- **Equal records agree, up to the signs of their zeros.** The documents of equal values are equal
up to the signs of the zeros in them, and so are their texts if there are no signs. A set that any
operations have built from such values holds no two equal ones, and contains a value just when it
holds an equal one. -/
theorem equal_records_agree (c : Catalog) (t : Ty) :
    (∀ a b, HasType c t a → HasType c t b → a.same b = true →
      a.encode.unsigned = b.encode.unsigned ∧ (a.Unsigned → b.Unsigned → a.text = b.text)) ∧
    ∀ ops : List RecordSet.Op, (∀ d, .insert d ∈ ops → HasType c t d ∧ d.Unsigned) →
      (RecordSet.run ops).records.Pairwise (fun a b => a.same b = false ∧ b.same a = false) ∧
      ∀ b, HasType c t b → b.Unsigned →
        ((RecordSet.run ops).contains b = true ↔
          ∃ a ∈ (RecordSet.run ops).records, a.same b = true) := by
  refine ⟨fun a b ha hb h => ⟨(ha.agrees hb h).unsigned, ha.text_eq_of_same hb h⟩,
    fun ops hops => ?_⟩
  have hs : (RecordSet.run ops).Distinct c t := RecordSet.run_distinct hops
  refine ⟨hs.distinct.imp_of_mem fun {a b} ha hb h => ⟨h, ?_⟩, fun b hb hzero => ?_⟩
  · rw [← Bool.not_eq_true, (hs.typed b hb).same_comm (hs.typed a ha), h]
    exact nofun
  · rw [hs.contains_iff hb hzero]
    exact exists_congr fun a => and_congr_right fun ha => hb.same_comm (hs.typed a ha)

/-- A reply with one list under these keys. -/
def listsReply (keys : List String) : Datum :=
  .record [("results", .map (keys.map fun key => (key, Api.Sample.listInfo.toDatum)))]

theorem listsReply_hasType {keys : List String} (h : keys.Nodup) :
    HasType Api.catalog (.record "GetListsResponse") (listsReply keys) := by
  have hfields : Api.catalog.fields "GetListsResponse" =
    [.req "results" (.map (.record "ListInfo"))] := by rfl
  have hinfo : Api.catalog.fields "ListInfo" = [.req "name" .string, .req "status" .status,
    .req "public" .bool, .req "owner" .uuid] := by rfl
  refine .record rfl ?_
  simp only [hfields, List.zip_cons_cons, List.zip_nil_right, List.forall_mem_singleton]
  refine .map ?_ ?_
  · rwa [List.map_map, show (Prod.fst ∘ fun key : String => (key, _)) = id from rfl, List.map_id]
  · intro e he
    obtain ⟨key, -, rfl⟩ := List.mem_map.mp he
    refine .record rfl ?_
    simp only [hinfo, List.zip_cons_cons, List.zip_nil_right, List.forall_mem_cons]
    exact ⟨.string _, .status _, .bool _, .uuid _, nofun⟩

theorem equal_records_agree_listsReply :
    let a := listsReply ["groceries", "hardware"]
    let b := listsReply ["hardware", "groceries"]
    HasType Api.catalog (.record "GetListsResponse") a ∧
      HasType Api.catalog (.record "GetListsResponse") b ∧ a.same b = true ∧
      a.Unsigned ∧ b.Unsigned ∧ a.text = b.text ∧
      (RecordSet.run [.insert a]).contains b = true := by
  intro a b
  have ha : HasType Api.catalog (.record "GetListsResponse") a := listsReply_hasType (by decide)
  have hb : HasType Api.catalog (.record "GetListsResponse") b := listsReply_hasType (by decide)
  have hsame : a.same b = true := by
    cbv
  have hzero : a.Unsigned := by
    cbv
  have hzero' : b.Unsigned := by
    cbv
  have hops : ∀ d, RecordSet.Op.insert d ∈ [RecordSet.Op.insert a] →
      HasType Api.catalog (.record "GetListsResponse") d ∧ d.Unsigned := by
    intro d hd
    cases List.mem_singleton.mp hd
    exact ⟨ha, hzero⟩
  obtain ⟨hvalues, hsets⟩ := equal_records_agree Api.catalog (.record "GetListsResponse")
  exact ⟨ha, hb, hsame, hzero, hzero', (hvalues a b ha hb hsame).2 hzero hzero',
    ((hsets _ hops).2 b hb hzero').mpr ⟨a, List.mem_singleton.mpr rfl, hsame⟩⟩

/-- The reply to a deletion, with a payload. -/
def deletionReply (payload : Json) : Datum := .record [("ok", .json payload)]

theorem deletionReply_hasType {payload : Json} (h : payload.WellFormed) :
    HasType Api.catalog (.record "OkDeletePantryItemResponse") (deletionReply payload) := by
  have hfields : Api.catalog.fields "OkDeletePantryItemResponse" = [.req "ok" .json] := by rfl
  refine .record rfl ?_
  simp only [hfields, List.zip_cons_cons, List.zip_nil_right, List.forall_mem_singleton]
  exact .json h

/-- The reply whose payload is the zero of this sign. -/
def zeroReply (negative : Bool) : Datum := deletionReply (.number (.float (.zero negative)))

theorem zeroReply_text (negative : Bool) :
    (zeroReply negative).text = String.ofList (['{', '\"', 'o', 'k', '\"', ':'] ++
      ((if negative then ['-'] else []) ++ ['0', '.', '0'] ++ ['}'])) := by
  rw [← Binary64.Finite.chars_zero]
  rfl

/-- Zeros of both signs are equal, and written differently: a set takes the one for new when it has
the other. -/
theorem zeroReplies_kept_apart :
    HasType Api.catalog (.record "OkDeletePantryItemResponse") (zeroReply false) ∧
      HasType Api.catalog (.record "OkDeletePantryItemResponse") (zeroReply true) ∧
      (zeroReply false).same (zeroReply true) = true ∧
      (zeroReply false).text ≠ (zeroReply true).text ∧
      (RecordSet.run [.insert (zeroReply false)]).contains (zeroReply true) = false ∧
      (RecordSet.run [.insert (zeroReply false), .insert (zeroReply true)]).size = 2 := by
  have htext : (zeroReply true).text ≠ (zeroReply false).text := by
    rw [zeroReply_text, zeroReply_text]
    decide
  have hapart : (zeroReply true).indistinct (zeroReply false) = false := by
    rw [Datum.indistinct, beq_false_of_ne htext, Bool.false_and]
  have hcontains : (RecordSet.run [.insert (zeroReply false)]).contains (zeroReply true) = false := by
    show ((zeroReply true).indistinct (zeroReply false) || false) = false
    rw [hapart, Bool.false_or]
  refine ⟨deletionReply_hasType trivial, deletionReply_hasType trivial, ?_, htext.symm, hcontains,
    ?_⟩
  · cbv
  · show ((RecordSet.run [.insert (zeroReply false)]).insert (zeroReply true)).size = 2
    rw [RecordSet.insert, hcontains]
    rfl

end Larder
