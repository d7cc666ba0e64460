import Mathlib
import Larder.Api.Catalog
import Larder.Api.Samples
import Larder.Proofs.Conformance
import Larder.Proofs.EntryByEntry
import Larder.Proofs.NormalForm
import Larder.Proofs.ResponseRecords

/-!
# Who may write to a list

Which lists a person may write to is read from a document in several steps: the map of lists may
leave entries out, each list is a record, its standing is read from any string, and what remains is
filtered by standing. `GrantsWrite` says in one line when a document grants writing to a list, and
`WriteFollows` that the steps come to just that.

The standing is the only field that matters, and it is looked at twice: as the string in the
document and as the standing of the value. `reads_listInfo` ties the two together, for a list that
is read by itself; `Outcome.mem_entries` carries that into the map.
-/

namespace Larder.Api

variable {c : Catalog} {v : Json} {d : Datum} {mode : Mode}

/-! ## Values of lists -/

namespace ListInfo

theorem ofDatum?_toDatum (info : ListInfo) : ofDatum? info.toDatum = some info := rfl

theorem toDatum_injective : Function.Injective toDatum := by
  intro a b h
  have hread := congrArg ofDatum? h
  rw [ofDatum?_toDatum, ofDatum?_toDatum] at hread
  exact Option.some.inj hread

end ListInfo

namespace ListDirectory

/-- The value of the lists. -/
def toDatum (dir : ListDirectory) : Datum :=
  .record [("results", .map (dir.lists.map fun e => (e.1, e.2.toDatum)))]

theorem ofDatum?_toDatum (dir : ListDirectory) : ofDatum? dir.toDatum = some dir := by
  have hentries : ∀ lists : List (String × ListInfo),
      (lists.map fun e => (e.1, e.2.toDatum)).mapM
        (fun e => (ListInfo.ofDatum? e.2).map (e.1, ·)) = some lists := by
    intro lists
    induction lists with
    | nil => rfl
    | cons e rest ih =>
        rw [List.map_cons, List.mapM_cons, ih]
        rfl
  show ((dir.lists.map fun e => (e.1, e.2.toDatum)).mapM
    (fun e => (ListInfo.ofDatum? e.2).map (e.1, ·))).map mk = some dir
  rw [hentries]
  rfl

end ListDirectory

/-! ## Reading one list -/

theorem fields_listInfo : catalog.fields "ListInfo" =
    [.req "name" .string, .req "status" .status, .req "public" .bool, .req "owner" .uuid] := by
  rfl

/-- Of fields that are read one by one, the first has to be there. -/
theorem readsFields_required {members : List (String × Json)} {key : String} {t : Ty}
    {fields : List Field} {es : List (String × Datum)}
    (h : List.Forall₂ (fun f e => e.1 = f.key ∧ ReadsField c members f e.2)
      (.req key t :: fields) es) :
    ∃ w e rest, es = (key, e) :: rest ∧ members.lookup key = some w ∧ Reads c t w e ∧
      List.Forall₂ (fun f e => e.1 = f.key ∧ ReadsField c members f e.2) fields rest := by
  obtain ⟨⟨_, e⟩, rest, ⟨rfl, hfield⟩, hrest, rfl⟩ := List.forall₂_cons_left_iff.mp h
  obtain ⟨w, hw, -, hread⟩ := (readsField_required rfl).mp hfield
  exact ⟨w, e, rest, rfl, hw, hread, hrest⟩

theorem reads_string (h : Reads c .string v d) : ∃ s, d = .string s := by
  have hread := reads_scalar.mp h
  cases v with
  | string s =>
      cases hread
      exact ⟨s, rfl⟩
  | _ => cases hread

theorem reads_status (h : Reads c .status v d) :
    ∃ s, v = .string s ∧ d = .status (.ofText s) := by
  have hread := reads_scalar.mp h
  cases v with
  | string s =>
      cases hread
      exact ⟨s, rfl, rfl⟩
  | _ => cases hread

theorem reads_bool (h : Reads c .bool v d) : ∃ b, d = .bool b := by
  have hread := reads_scalar.mp h
  cases v with
  | bool b =>
      cases hread
      exact ⟨b, rfl⟩
  | _ => cases hread

theorem reads_uuid (h : Reads c .uuid v d) : ∃ u, d = .uuid u := by
  have hread := reads_scalar.mp h
  cases v with
  | string s =>
      rw [Scalar.read] at hread
      cases hu : Uuid.ofText s with
      | ok u =>
          rw [hu] at hread
          cases hread
          exact ⟨u, rfl⟩
      | error flaw =>
          rw [hu] at hread
          cases hread
  | _ => cases hread

/-- A list that can be read has its standing from the string in its document. -/
theorem reads_listInfo (h : Reads catalog (.record "ListInfo") v d) :
    ∃ (info : ListInfo) (status : String), d = info.toDatum ∧
      v.keyword "status" = some (.string status) ∧ info.status = .ofText status := by
  obtain ⟨members, es, rfl, hes, rfl⟩ := reads_record.mp h
  rw [fields_listInfo] at hes
  obtain ⟨_, _, _, rfl, -, hname, hes⟩ := readsFields_required hes
  obtain ⟨_, _, _, rfl, hlookup, hstatus, hes⟩ := readsFields_required hes
  obtain ⟨_, _, _, rfl, -, hpublic, hes⟩ := readsFields_required hes
  obtain ⟨_, _, _, rfl, -, howner, hes⟩ := readsFields_required hes
  obtain rfl := List.forall₂_nil_left_iff.mp hes
  obtain ⟨name, rfl⟩ := reads_string hname
  obtain ⟨status, rfl, rfl⟩ := reads_status hstatus
  obtain ⟨isPublic, rfl⟩ := reads_bool hpublic
  obtain ⟨owner, rfl⟩ := reads_uuid howner
  exact ⟨⟨name, .ofText status, isPublic, owner⟩, status, rfl, hlookup, rfl⟩

/-- A list is read alike in both modes, and nothing is left out of it. -/
theorem decodeValue_listInfo (mode mode' : Mode) :
    decodeValue catalog (.record "ListInfo") ⟨mode⟩ v = .ok ⟨d, []⟩ ↔
      (reading catalog mode' (.record "ListInfo") v).result = .ok d := by
  have hscalars : ∀ f ∈ catalog.fields "ListInfo", ∃ s, f.ty = .scalar s := by
    rw [fields_listInfo]
    simp only [List.forall_mem_cons]
    exact ⟨⟨.string, rfl⟩, ⟨.status, rfl⟩, ⟨.bool, rfl⟩, ⟨.uuid, rfl⟩, nofun⟩
  rw [decodeValue_complete_iff, decodeValue_strict_iff, reading_scalars hscalars .strict]
  exact and_iff_left rfl

/-! ## Reading the lists -/

/-- What a response about lists is read as: the entries of its map that can be read as lists. -/
theorem reading_listsResponse
    (h : (reading catalog mode (.record "GetListsResponse") v).result = .ok d) :
    ∃ members lists entries, v = .object members ∧
      members.lookup "results" = some (.object lists) ∧
      (Outcome.entries .key mode (reading catalog mode (.record "ListInfo")) lists).result =
        .ok entries ∧
      d = .record [("results", .map entries)] := by
  have hfields : catalog.fields "GetListsResponse" =
    [.req "results" (.map (.record "ListInfo"))] := by rfl
  cases v with
  | object members =>
      rw [reading_single hfields] at h
      obtain ⟨results, hresults, rfl⟩ := Outcome.map_eq_ok.mp h
      obtain ⟨w, hw, hnull, hread⟩ := Outcome.required_eq_ok.mp hresults
      rw [reading_map] at hread
      cases w with
      | null => cases hnull
      | object lists =>
          obtain ⟨entries, hentries, rfl⟩ := Outcome.map_eq_ok.mp hread
          rw [readingEntries_eq_entries] at hentries
          exact ⟨members, lists, entries, rfl, hw, hentries, rfl⟩
      | _ => cases hread
  | _ =>
      rw [reading_record] at h
      cases h

/-- Entries that have been read as lists are the value of a directory. -/
theorem exists_directory {lists : List (String × Json)} {entries : List (String × Datum)}
    (h : (Outcome.entries .key mode (reading catalog mode (.record "ListInfo")) lists).result =
      .ok entries) :
    ∃ dir : ListDirectory, entries = dir.lists.map fun e => (e.1, e.2.toDatum) := by
  have hentries : entries ∈
      Set.range (List.map fun e : String × ListInfo => (e.1, e.2.toDatum)) := by
    rw [Set.range_list_map]
    intro e he
    obtain ⟨w, -, hw⟩ := (Outcome.mem_entries h e.1 e.2).mp he
    have hstrict := (decodeValue_listInfo .strict mode).mpr hw
    obtain ⟨info, -, hinfo, -⟩ := reads_listInfo (decodeValue_strict_iff.mp hstrict).1
    exact ⟨(e.1, info), Prod.ext rfl hinfo.symm⟩
  obtain ⟨lists, hlists⟩ := hentries
  exact ⟨⟨lists⟩, hlists.symm⟩

/-! ## Who may write -/

/-- The document grants writing to the list `info` under a key: reading what is there by itself ends
with this list, and its standing is one of the two that permit it, spelled just so. -/
def GrantsWrite (mode : Mode) (v : Json) (key : String) (info : ListInfo) : Prop :=
  ∃ lists list status, v.keyword "results" = some lists ∧ lists.keyword key = some list ∧
    decodeValue catalog (.record "ListInfo") ⟨mode⟩ list = .ok ⟨info.toDatum, []⟩ ∧
    list.keyword "status" = some (.string status) ∧ status ∈ ["owned", "shared_write"]

/-- The lists of a directory that may be written to are those to which the document grants it. -/
structure WriteFollows (v : Json) (dir : ListDirectory) : Prop where
  /-- Each is there once. -/
  once : (dir.writable.map Prod.fst).Nodup
  /-- In whichever mode a list is read by itself. -/
  granted (mode : Mode) (key : String) (info : ListInfo) :
    (key, info) ∈ dir.writable ↔ GrantsWrite mode v key info
  /-- A list of any other standing is not among them. -/
  refused (key : String) (lists list : Json) (status : String) :
    v.keyword "results" = some lists → lists.keyword key = some list →
      list.keyword "status" = some (.string status) → status ∉ ["owned", "shared_write"] →
      key ∉ dir.writable.map Prod.fst

/-- Whether a list may be written to is seen from the string in its document. -/
theorem canWrite_iff {info : ListInfo}
    (h : decodeValue catalog (.record "ListInfo") ⟨mode⟩ v = .ok ⟨info.toDatum, []⟩) :
    info.status.canWrite = true ↔
      ∃ status, v.keyword "status" = some (.string status) ∧ status ∈ ["owned", "shared_write"] := by
  have hread : Reads catalog (.record "ListInfo") v info.toDatum :=
    (decodeValue_listInfo mode .strict).mp h
  obtain ⟨other, status, hother, hstatus, hname⟩ := reads_listInfo hread
  obtain rfl : info = other := ListInfo.toDatum_injective hother
  rw [hname, ListStatus.canWrite_ofText_iff, hstatus]
  simp

theorem mem_writable {dir : ListDirectory} {key : String} {info : ListInfo} :
    (key, info) ∈ dir.writable ↔ (key, info) ∈ dir.lists ∧ info.status.canWrite = true :=
  List.mem_filter

/-- The lists of the directory are those of the document that can be read by themselves. -/
theorem mem_lists_iff {lists : List (String × Json)} {dir : ListDirectory}
    (hlists : (lists.map Prod.fst).Nodup)
    (h : (Outcome.entries .key mode (reading catalog mode (.record "ListInfo")) lists).result =
      .ok (dir.lists.map fun e => (e.1, e.2.toDatum)))
    (mode' : Mode) (key : String) (info : ListInfo) :
    (key, info) ∈ dir.lists ↔ ∃ list, lists.lookup key = some list ∧
      decodeValue catalog (.record "ListInfo") ⟨mode'⟩ list = .ok ⟨info.toDatum, []⟩ := by
  have hmem : (key, info) ∈ dir.lists ↔
      (key, info.toDatum) ∈ dir.lists.map fun e => (e.1, e.2.toDatum) := by
    rw [List.mem_map]
    refine ⟨fun he => ⟨_, he, rfl⟩, ?_⟩
    rintro ⟨⟨key', info'⟩, he, heq⟩
    obtain ⟨rfl, hinfo⟩ := Prod.mk.inj heq
    obtain rfl := ListInfo.toDatum_injective hinfo
    exact he
  have hlookup : ∀ list, (key, list) ∈ lists ↔ lists.lookup key = some list := fun list =>
    ⟨fun he => Keyed.lookup_of_mem hlists he, Keyed.mem_of_lookup⟩
  rw [hmem, Outcome.mem_entries h]
  simp only [hlookup, decodeValue_listInfo mode' mode]

/-- A directory whose lists are those of the document that can be read by themselves has among them
those for writing. -/
theorem WriteFollows.of_lists {members lists : List (String × Json)} {dir : ListDirectory}
    (hmembers : members.lookup "results" = some (.object lists))
    (hkeys : (dir.lists.map Prod.fst).Nodup)
    (h : ∀ mode key info, (key, info) ∈ dir.lists ↔ ∃ list, lists.lookup key = some list ∧
      decodeValue catalog (.record "ListInfo") ⟨mode⟩ list = .ok ⟨info.toDatum, []⟩) :
    WriteFollows (.object members) dir := by
  have granted : ∀ mode key info,
      (key, info) ∈ dir.writable ↔ GrantsWrite mode (.object members) key info := by
    intro mode key info
    rw [mem_writable, h mode]
    refine ⟨?_, ?_⟩
    · rintro ⟨⟨list, hlist, hread⟩, hwrite⟩
      obtain ⟨status, hstatus, hname⟩ := (canWrite_iff hread).mp hwrite
      exact ⟨.object lists, list, status, hmembers, hlist, hread, hstatus, hname⟩
    · rintro ⟨_, list, status, hresults, hlist, hread, hstatus, hname⟩
      obtain rfl := Option.some.inj (hmembers.symm.trans hresults)
      exact ⟨⟨list, hlist, hread⟩, (canWrite_iff hread).mpr ⟨status, hstatus, hname⟩⟩
  refine ⟨hkeys.sublist (List.filter_sublist.map Prod.fst), granted, ?_⟩
  intro key results list status hresults hlist hstatus hname hkey
  obtain ⟨⟨_, info⟩, hwrite, rfl⟩ := List.mem_map.mp hkey
  obtain ⟨results', list', status', hresults', hlist', -, hstatus', hname'⟩ :=
    (granted .strict _ info).mp hwrite
  -- the document has one string for the standing, so it would be both
  obtain rfl := Option.some.inj (hresults.symm.trans hresults')
  obtain rfl := Option.some.inj (hlist.symm.trans hlist')
  obtain rfl := Json.string.inj (Option.some.inj (hstatus.symm.trans hstatus'))
  exact hname hname'

/-- **Write permission follows the document.** A response about lists that can be read, in either
mode, names lists that a person may write to; they are those to which the document grants it, and
reading the document of the value again, in either mode, does not change them. -/
theorem writable_follows {v : Json} (hv : v.WellFormed) {mode : Mode} {d : Decoded Datum}
    (h : decodeValue catalog (.record "GetListsResponse") ⟨mode⟩ v = .ok d) :
    ∃ dir, ListDirectory.ofDatum? d.value = some dir ∧ WriteFollows v dir ∧
      ∀ mode', ∃ again dir',
        decodeValue catalog (.record "GetListsResponse") ⟨mode'⟩ d.value.encode = .ok again ∧
        ListDirectory.ofDatum? again.value = some dir' ∧ dir'.writable = dir.writable := by
  obtain ⟨members, lists, entries, rfl, hmembers, hentries, hd⟩ :=
    reading_listsResponse (decodeValue_eq_ok.mp h).1
  obtain ⟨dir, rfl⟩ := exists_directory hentries
  have hdir : ListDirectory.ofDatum? d.value = some dir := hd ▸ dir.ofDatum?_toDatum
  have hlists : Keyed.Sorted lists := (hv.of_lookup hmembers).1
  have hkeys : (dir.lists.map Prod.fst).Nodup := by
    have hsub := hlists.nodup.sublist (Outcome.entries_labels_sublist hentries)
    rwa [List.map_map] at hsub
  refine ⟨dir, hdir, .of_lists hmembers hkeys (mem_lists_iff hlists.nodup hentries), ?_⟩
  intro mode'
  have hc : catalog.DistinctKeys := by decide
  have hagain := (decodeValue_encode_self hc hv h mode').1
  exact ⟨⟨d.value, []⟩, dir, hagain, hdir, rfl⟩

/-- The document of a list of this standing. -/
def listOfStanding (status : String) : Json :=
  .object [("name", .string "Groceries"), ("owner", .string Sample.ownerId),
    ("public", .bool false), ("status", .string status)]

/-- Two lists that may be written to, three whose standing is spelled otherwise or is another, and
one that is none. -/
def doubtfulLists : Json :=
  .object [("results", .object [
    ("bread", listOfStanding "owned"), ("cake", listOfStanding "shared_write"),
    ("eggs", listOfStanding "Owned"), ("jam", listOfStanding " owned"),
    ("milk", listOfStanding "shared_read"), ("tea", .bool true)])]

/-- What a lenient reading makes of them. -/
def doubtfulDirectory : ListDirectory :=
  ⟨[("bread", .owned), ("cake", .sharedWrite), ("eggs", .other "Owned"), ("jam", .other " owned"),
    ("milk", .sharedRead)].map fun e => (e.1, ⟨"Groceries", e.2, false, Sample.owner⟩)⟩

/-- What is left out of it. -/
def doubtfulDrop : Drop :=
  let path : Path := ⟨[.key "results", .key "tea"]⟩
  ⟨path, ⟨path, .unexpectedType "object" "boolean"⟩⟩

theorem writable_follows_doubtfulLists :
    doubtfulLists.WellFormed ∧
      decodeValue catalog (.record "GetListsResponse") ⟨.lenient⟩ doubtfulLists =
        .ok ⟨doubtfulDirectory.toDatum, [doubtfulDrop]⟩ ∧
      WriteFollows doubtfulLists doubtfulDirectory ∧
      doubtfulDirectory.writable.map Prod.fst = ["bread", "cake"] := by
  have hv : doubtfulLists.WellFormed := by
    simp only [doubtfulLists, listOfStanding, Json.WellFormed, Json.MembersWellFormed,
      Keyed.Sorted, and_true]
    decide
  have hread : decodeValue catalog (.record "GetListsResponse") ⟨.lenient⟩ doubtfulLists =
      .ok ⟨doubtfulDirectory.toDatum, [doubtfulDrop]⟩ := by
    cbv
  obtain ⟨dir, hdir, hfollows, -⟩ := writable_follows hv hread
  rw [ListDirectory.ofDatum?_toDatum] at hdir
  obtain rfl := Option.some.inj hdir
  exact ⟨hv, hread, hfollows, rfl⟩

end Larder.Api
