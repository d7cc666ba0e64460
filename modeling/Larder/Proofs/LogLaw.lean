import Larder.Proofs.EntryLog

/-!
# What the log of a lenient reading is

The log of a lenient reading has the entries that were attempted and cannot be read by themselves,
each once, in the order in which the reading is done with them: an entry comes after those inside
it. If the reading ends with a value, it reports what lasts of its log.

`LogLaw` says so of one type and document, and `logLaw` of all, along the reading. The entries of a
collection and the fields of a record each give a part of the log, and the paths in different parts
begin differently; so the parts are in order as the entries are, and each lasts by itself.
-/

namespace Larder

variable {α κ : Type} {c : Catalog} {t : Ty} {v : Json}

/-! ## The law of the log -/

/-- What the log of the lenient reading of a document as a type is. -/
structure LogLaw (c : Catalog) (t : Ty) (v : Json) : Prop where
  /-- It has the entries that were attempted and cannot be read by themselves. -/
  attempted : ∀ r, r ∈ (reading c .lenient t v).log ↔
    ∃ p u w, Attempts c t v p u w ∧ FailedAt c p u w r
  /-- They stand in the order in which the reading is done with them. -/
  inOrder : (reading c .lenient t v).log.Pairwise fun r s => DoneBefore c t r.path s.path
  /-- What lasts of it is reported. -/
  reported : ∀ d, (reading c .lenient t v).result = .ok d →
    (reading c .lenient t v).dropped = lasting (reading c .lenient t v).log

namespace LogLaw

/-- A reading that attempts no entries and logs none. -/
theorem of_quiet (h : (reading c .lenient t v).Quiet)
    (hattempts : ∀ p u w, ¬Attempts c t v p u w) : LogLaw c t v where
  attempted r := by
    rw [h.2]
    refine ⟨nofun, ?_⟩
    intro h
    obtain ⟨p, u, w, h, -⟩ := h
    exact absurd h (hattempts p u w)
  inOrder := by rw [h.2]; exact .nil
  reported d _ := by rw [h.1, h.2]; rfl

/-! ### One entry of a collection -/

/-- What the log says of an entry is about the entry itself or about those attempted inside it. -/
theorem mem_logAt (h : LogLaw c t v) (s : Segment) (r : Drop) :
    r ∈ logAt s (reading c .lenient t v) ↔
      ∃ p u w, (p = [] ∧ u = t ∧ w = v ∨ Attempts c t v p u w) ∧ FailedAt c (s :: p) u w r := by
  have hlog : r ∈ logAt s (reading c .lenient t v) ↔
      r ∈ (reading c .lenient t v).log.map (Drop.below (.step s)) ∨ FailedAt c [s] t v r := by
    unfold logAt FailedAt
    cases (reading c .lenient t v).result with
    | ok d => simp
    | error e => simp [Path.step]
  rw [hlog, List.mem_map]
  simp only [h.attempted]
  refine ⟨?_, ?_⟩
  · intro hr
    rcases hr with ⟨r', ⟨p, u, w, hattempt, hfail⟩, rfl⟩ | hr
    · exact ⟨p, u, w, Or.inr hattempt, failedAt_cons.mpr ⟨r', hfail, rfl⟩⟩
    · exact ⟨[], t, v, Or.inl ⟨rfl, rfl, rfl⟩, hr⟩
  · intro hr
    obtain ⟨p, u, w, ⟨rfl, rfl, rfl⟩ | hattempt, hfail⟩ := hr
    · exact Or.inr hfail
    · obtain ⟨r', hinner, rfl⟩ := failedAt_cons.mp hfail
      exact Or.inl ⟨r', ⟨p, u, w, hattempt, hinner⟩, rfl⟩

/-- What was left out inside an entry lies inside it. -/
theorem inside_step (h : LogLaw c t v) (s : Segment) :
    ∀ r ∈ (reading c .lenient t v).log.map (Drop.below (.step s)), r.path.Inside (.step s) := by
  intro _ hr
  obtain ⟨r, hlog, rfl⟩ := List.mem_map.mp hr
  obtain ⟨p, u, w, hattempt, e, -, rfl⟩ := (h.attempted r).mp hlog
  refine ⟨⟨_, rfl⟩, fun heq => hattempt.ne_nil ?_⟩
  have hsegments := congrArg Path.segments heq
  simpa [Drop.below, Path.append, Path.step, Path.root] using hsegments

theorem pairwise_logAt (h : LogLaw c t v) {u : Ty} {s : Segment}
    (hs : ∀ p q, Precedes c t p q → Precedes c u (s :: p) (s :: q)) :
    (logAt s (reading c .lenient t v)).Pairwise fun r r' => DoneBefore c u r.path r'.path := by
  have hinside : ((reading c .lenient t v).log.map (Drop.below (.step s))).Pairwise
      fun r r' => DoneBefore c u r.path r'.path :=
    List.pairwise_map.mpr (h.inOrder.imp fun hr => hr.below hs)
  unfold logAt
  cases (reading c .lenient t v).result with
  | ok d => exact hinside
  | error e =>
      -- the entry itself lies around what was left out inside it
      refine List.pairwise_append.mpr ⟨hinside, List.pairwise_singleton _ _, fun r hr r' hr' => ?_⟩
      obtain rfl := List.mem_singleton.mp hr'
      exact Or.inr (h.inside_step s r hr)

theorem lasting_logAt (h : LogLaw c t v) (s : Segment) :
    lasting (logAt s (reading c .lenient t v)) = dropsAt s (reading c .lenient t v).decoded := by
  have hinside := h.inside_step s
  have hreported := h.reported
  unfold logAt
  generalize reading c .lenient t v = o at hinside hreported
  obtain ⟨result, dropped, log⟩ := o
  cases result with
  | error e => exact lasting_around hinside
  | ok d =>
      have hd : dropped = lasting log := hreported d rfl
      show lasting (log.map (Drop.below (.step s))) = dropped.map (Drop.below (.step s))
      rw [lasting_map_below, hd]

/-- What is logged of an entry begins with its segment. -/
theorem logAt_path {s : Segment} {o : Outcome α} {r : Drop} (hr : r ∈ logAt s o) :
    ∃ p, r.path = ⟨s :: p⟩ := by
  have hinside : r ∈ o.log.map (Drop.below (.step s)) → ∃ p, r.path = ⟨s :: p⟩ := by
    intro hr
    obtain ⟨r, -, rfl⟩ := List.mem_map.mp hr
    exact ⟨_, rfl⟩
  unfold logAt at hr
  split at hr
  · exact hinside hr
  · rcases List.mem_append.mp hr with hr | hr
    · exact hinside hr
    · obtain rfl := List.mem_singleton.mp hr
      exact ⟨_, rfl⟩

/-! ### Collections -/

/-- The law of a collection, from that of its entries, whose labels are in order. -/
theorem collection {u : Ty} (segment : κ → Segment) (es : List (κ × Json))
    (gather : List (κ × Datum) → Datum) (hes : ∀ e ∈ es, LogLaw c t e.2)
    (hread : reading c .lenient u v =
      gather <$> Outcome.entries segment .lenient (reading c .lenient t) es)
    (hattempts : ∀ p w x, Attempts c u v p w x ↔ ∃ e ∈ es, ∃ q, p = segment e.1 :: q ∧
      (q = [] ∧ w = t ∧ x = e.2 ∨ Attempts c t e.2 q w x))
    (hinside : ∀ l p q, Precedes c t p q → Precedes c u (segment l :: p) (segment l :: q))
    (hlabels : es.Pairwise fun e e' => segment e.1 ≠ segment e'.1 ∧
      ∀ p q, Precedes c u (segment e.1 :: p) (segment e'.1 :: q)) : LogLaw c u v where
  attempted r := by
    rw [hread, Outcome.log_map, Outcome.log_entries, List.mem_flatMap]
    refine ⟨?_, ?_⟩
    · intro hr
      obtain ⟨e, he, hr⟩ := hr
      obtain ⟨p, w, x, hattempt, hfail⟩ := ((hes e he).mem_logAt _ r).mp hr
      exact ⟨_, w, x, (hattempts _ _ _).mpr ⟨e, he, p, rfl, hattempt⟩, hfail⟩
    · intro hr
      obtain ⟨_, w, x, hattempt, hfail⟩ := hr
      obtain ⟨e, he, p, rfl, hentry⟩ := (hattempts _ _ _).mp hattempt
      exact ⟨e, he, ((hes e he).mem_logAt _ r).mpr ⟨p, w, x, hentry, hfail⟩⟩
  inOrder := by
    rw [hread, Outcome.log_map, Outcome.log_entries, List.pairwise_flatMap]
    refine ⟨fun e he => (hes e he).pairwise_logAt (hinside e.1), hlabels.imp ?_⟩
    intro e e' hlabel r hr r' hr'
    obtain ⟨p, hp⟩ := logAt_path hr
    obtain ⟨q, hq⟩ := logAt_path hr'
    rw [hp, hq]
    exact Or.inl (hlabel.2 p q)
  reported d _ := by
    obtain ⟨-, hdropped⟩ := Outcome.decoded_eq_ok.mp
      (Outcome.entries_lenient segment (reading c .lenient t) es)
    rw [hread, Outcome.dropped_map, hdropped, Outcome.log_map, Outcome.log_entries, lasting_flatMap]
    · exact List.flatMap_congr fun e he => ((hes e he).lasting_logAt _).symm
    · refine hlabels.imp ?_
      intro e e' hlabel r hr r' hr'
      obtain ⟨p, hp⟩ := logAt_path hr
      obtain ⟨q, hq⟩ := logAt_path hr'
      rw [hp, hq]
      exact Path.not_inside_of_ne hlabel.1 p q

theorem list {items : List Json} (ih : ∀ w ∈ items, LogLaw c t w) :
    LogLaw c (.list t) (.array items) := by
  have hmem : ∀ i w, (i, w) ∈ items.zipIdx.map Prod.swap ↔ items[i]? = some w := by
    intro i w
    rw [← List.mk_mem_zipIdx_iff_getElem?, List.mem_map]
    exact ⟨fun ⟨_, h, he⟩ => by cases he; exact h, fun h => ⟨_, h, rfl⟩⟩
  refine collection .index (items.zipIdx.map Prod.swap)
    (fun entries => .list (entries.map Prod.snd)) (fun e he => ?_) ?_ (fun p u w => ?_)
    (fun i p q h => .item h) ?_
  · exact ih e.2 (List.mem_of_getElem? ((hmem e.1 e.2).mp he))
  · rw [reading_list]
    dsimp only
    rw [readingItems_eq_entries, Outcome.map_map]
  · refine ⟨?_, ?_⟩
    · intro h
      cases h with
      | item hw => exact ⟨(_, w), (hmem _ _).mpr hw, [], rfl, Or.inl ⟨rfl, rfl, rfl⟩⟩
      | insideItem hx h => exact ⟨(_, _), (hmem _ _).mpr hx, _, rfl, Or.inr h⟩
    · intro h
      obtain ⟨⟨i, x⟩, he, q, rfl, ⟨rfl, rfl, rfl⟩ | h⟩ := h
      · exact .item ((hmem i _).mp he)
      · exact .insideItem ((hmem i x).mp he) h
  · refine List.pairwise_map.mpr (List.pairwise_iff_getElem.mpr fun i j hi hj hij => ?_)
    rw [List.getElem_zipIdx, List.getElem_zipIdx]
    simp only [Prod.fst_swap, Nat.zero_add]
    refine ⟨fun h => ?_, fun p q => .items hij⟩
    cases h
    exact Nat.lt_irrefl _ hij

theorem map {members : List (String × Json)} (hkeys : Keyed.Sorted members)
    (ih : ∀ m ∈ members, LogLaw c t m.2) : LogLaw c (.map t) (.object members) := by
  refine collection .key members .map ih ?_ (fun p u w => ?_) (fun k p q h => .entry h) ?_
  · rw [reading_map]
    dsimp only
    rw [readingEntries_eq_entries]
  · refine ⟨?_, ?_⟩
    · intro h
      cases h with
      | entry hw => exact ⟨_, Keyed.mem_of_lookup hw, [], rfl, Or.inl ⟨rfl, rfl, rfl⟩⟩
      | insideEntry hx h => exact ⟨_, Keyed.mem_of_lookup hx, _, rfl, Or.inr h⟩
    · intro h
      obtain ⟨e, he, q, rfl, ⟨rfl, rfl, rfl⟩ | h⟩ := h
      · exact .entry (Keyed.lookup_of_mem hkeys.nodup he)
      · exact .insideEntry (Keyed.lookup_of_mem hkeys.nodup he) h
  · refine hkeys.imp ?_
    intro m m' hlt
    refine ⟨fun h => ?_, fun p q => .entries hlt⟩
    rw [Segment.key.inj h] at hlt
    exact String.lt_irrefl _ hlt

/-! ### Fields of a record -/

/-- A member that is absent or null has nothing to log; any other field comes to what its member
comes to, one step deeper. -/
theorem field_cases (c : Catalog) (members : List (String × Json)) (f : Field) :
    (∀ x, members.lookup f.key = some x → x.isNull = true) ∧
        (readingField c .lenient members f).Quiet ∨
      ∃ x, members.lookup f.key = some x ∧ x.isNull = false ∧ ∃ g : Datum → Datum,
        readingField c .lenient members f =
          g <$> (reading c .lenient f.ty x).below (.step (.key f.key)) := by
  rw [readingField_eq]
  by_cases habsent : ∀ x, members.lookup f.key = some x → x.isNull = true
  · refine Or.inl ⟨habsent, ?_⟩
    split
    · refine Outcome.quiet_required fun x hx hnull => ?_
      cases (habsent x hx).symm.trans hnull
    · exact (Outcome.quiet_optional habsent).map
  · simp only [not_forall, Bool.not_eq_true] at habsent
    obtain ⟨x, hx, hnull⟩ := habsent
    refine Or.inr ⟨x, hx, hnull, ?_⟩
    rw [Outcome.required_of_lookup hx hnull, Outcome.optional_of_lookup hx hnull]
    split
    · refine ⟨id, ?_⟩
      obtain ⟨result, dropped, log⟩ := reading c .lenient f.ty x
      cases result <;> simp
    · refine ⟨fun d => Datum.ofOption (some d), ?_⟩
      rw [Outcome.below_map, Outcome.map_map]

/-- What is logged of a field is about the entries attempted inside its member. -/
theorem mem_field_log {members : List (String × Json)} {f : Field}
    (ih : ∀ x, members.lookup f.key = some x → LogLaw c f.ty x) (r : Drop) :
    r ∈ (readingField c .lenient members f).log ↔
      ∃ x p u w, (members.lookup f.key = some x ∧ x.isNull = false ∧ Attempts c f.ty x p u w) ∧
        FailedAt c (.key f.key :: p) u w r := by
  rcases field_cases c members f with ⟨habsent, hquiet⟩ | ⟨x, hx, hnull, g, hg⟩
  · rw [hquiet.2]
    refine ⟨nofun, ?_⟩
    intro h
    obtain ⟨x, p, u, w, ⟨hx, hnull, -⟩, -⟩ := h
    cases (habsent x hx).symm.trans hnull
  · rw [hg, Outcome.log_map]
    show r ∈ (reading c .lenient f.ty x).log.map (Drop.below (.step (.key f.key))) ↔ _
    simp only [List.mem_map, (ih x hx).attempted]
    refine ⟨?_, ?_⟩
    · intro h
      obtain ⟨r', ⟨p, u, w, hattempt, hfail⟩, rfl⟩ := h
      exact ⟨x, p, u, w, ⟨hx, hnull, hattempt⟩, failedAt_cons.mpr ⟨r', hfail, rfl⟩⟩
    · intro h
      obtain ⟨x', p, u, w, ⟨hx', -, hattempt⟩, hfail⟩ := h
      cases hx.symm.trans hx'
      obtain ⟨r', hinner, rfl⟩ := failedAt_cons.mp hfail
      exact ⟨r', ⟨p, u, w, hattempt, hinner⟩, rfl⟩

/-- What is logged of a field begins with its key. -/
theorem field_path {members : List (String × Json)} {f : Field} {r : Drop}
    (hr : r ∈ (readingField c .lenient members f).log) : ∃ p, r.path = ⟨.key f.key :: p⟩ := by
  rcases field_cases c members f with ⟨-, hquiet⟩ | ⟨x, hx, hnull, g, hg⟩
  · rw [hquiet.2] at hr
    cases hr
  · rw [hg, Outcome.log_map] at hr
    obtain ⟨r, -, rfl⟩ := List.mem_map.mp hr
    exact ⟨_, rfl⟩

theorem pairwise_field {members : List (String × Json)} {f : Field} {u : Ty}
    (ih : ∀ x, members.lookup f.key = some x → LogLaw c f.ty x)
    (hinside : ∀ p q, Precedes c f.ty p q → Precedes c u (.key f.key :: p) (.key f.key :: q)) :
    (readingField c .lenient members f).log.Pairwise fun r s => DoneBefore c u r.path s.path := by
  rcases field_cases c members f with ⟨-, hquiet⟩ | ⟨x, hx, hnull, g, hg⟩
  · rw [hquiet.2]
    exact .nil
  · rw [hg, Outcome.log_map]
    exact List.pairwise_map.mpr ((ih x hx).inOrder.imp fun hr => hr.below hinside)

theorem lasting_field {members : List (String × Json)} {f : Field} {d : Datum}
    (ih : ∀ x, members.lookup f.key = some x → LogLaw c f.ty x)
    (hd : (readingField c .lenient members f).result = .ok d) :
    (readingField c .lenient members f).dropped =
      lasting (readingField c .lenient members f).log := by
  rcases field_cases c members f with ⟨-, hquiet⟩ | ⟨x, hx, hnull, g, hg⟩
  · rw [hquiet.1, hquiet.2]
    rfl
  · rw [hg] at hd ⊢
    obtain ⟨e, he, -⟩ := Outcome.map_eq_ok.mp hd
    rw [Outcome.log_map, Outcome.dropped_map]
    show List.map _ _ = lasting (List.map _ _)
    rw [lasting_map_below, (ih x hx).reported e (Outcome.below_eq_ok.mp he)]

/-- The fields that a lenient reading comes to: all up to the first that cannot be read. -/
def fieldsRead (c : Catalog) (members : List (String × Json)) : List Field → List Field
  | [] => []
  | f :: rest =>
    match (readingField c .lenient members f).result with
    | .ok _ => f :: fieldsRead c members rest
    | .error _ => [f]

theorem fieldsRead_initial (members : List (String × Json)) :
    ∀ fields : List Field, fieldsRead c members fields <+: fields
  | [] => List.nil_prefix
  | f :: rest => by
      rw [fieldsRead]
      split
      · exact List.cons_prefix_cons.mpr ⟨rfl, fieldsRead_initial members rest⟩
      · exact List.cons_prefix_cons.mpr ⟨rfl, List.nil_prefix⟩

theorem mem_fieldsRead {members : List (String × Json)} {f : Field} : ∀ {fields : List Field},
    f ∈ fieldsRead c members fields ↔ ∃ before after, fields = before ++ f :: after ∧
      ∀ g ∈ before, ∃ d, (readingField c .lenient members g).result = .ok d
  | [] => by simp [fieldsRead]
  | g :: rest => by
      have hrest : f ∈ fieldsRead c members rest ↔ _ := mem_fieldsRead
      rw [fieldsRead]
      cases hg : (readingField c .lenient members g).result with
      | ok d =>
          rw [List.mem_cons, hrest]
          refine ⟨?_, ?_⟩
          · intro h
            rcases h with rfl | ⟨before, after, rfl, hbefore⟩
            · exact ⟨[], rest, rfl, nofun⟩
            · exact ⟨g :: before, after, rfl, List.forall_mem_cons.mpr ⟨⟨d, hg⟩, hbefore⟩⟩
          · intro h
            obtain ⟨before, after, hfields, hbefore⟩ := h
            cases before with
            | nil =>
                cases hfields
                exact Or.inl rfl
            | cons _ before =>
                cases hfields
                exact Or.inr ⟨before, after, rfl, fun h hh => hbefore h (List.mem_cons_of_mem _ hh)⟩
      | error e =>
          rw [List.mem_singleton]
          refine ⟨fun h => ⟨[], rest, by rw [h]; rfl, nofun⟩, ?_⟩
          intro h
          obtain ⟨before, after, hfields, hbefore⟩ := h
          cases before with
          | nil =>
              cases hfields
              rfl
          | cons _ before =>
              cases hfields
              obtain ⟨d, hd⟩ := hbefore g List.mem_cons_self
              cases hg.symm.trans hd

theorem log_fields (members : List (String × Json)) : ∀ fields : List Field,
    (readingFields c .lenient members fields).log =
      (fieldsRead c members fields).flatMap fun f => (readingField c .lenient members f).log
  | [] => by
      rw [readingFields_nil]
      rfl
  | f :: rest => by
      rw [readingFields_cons, Outcome.log_parts, fieldsRead, log_fields members rest]
      cases (readingField c .lenient members f).result with
      | ok d => rw [List.flatMap_cons]
      | error e => rw [List.flatMap_singleton]

/-- If all fields can be read, the reading comes to all of them, and reports what they report. -/
theorem fields_of_ok {members : List (String × Json)} : ∀ {fields : List Field}
    {es : List (String × Datum)}, (readingFields c .lenient members fields).result = .ok es →
      fieldsRead c members fields = fields ∧
      (readingFields c .lenient members fields).dropped =
        fields.flatMap (fun f => (readingField c .lenient members f).dropped) ∧
      ∀ f ∈ fields, ∃ d, (readingField c .lenient members f).result = .ok d
  | [], _, _ => by
      rw [readingFields_nil]
      exact ⟨rfl, rfl, nofun⟩
  | f :: rest, _, h => by
      rw [readingFields_cons] at h ⊢
      obtain ⟨d, es, hd, hes, rfl⟩ := Outcome.parts_eq_ok.mp h
      obtain ⟨hread, hdropped, hall⟩ := fields_of_ok hes
      refine ⟨?_, ?_, List.forall_mem_cons.mpr ⟨⟨d, hd⟩, hall⟩⟩
      · rw [fieldsRead, hd]
        exact congrArg (f :: ·) hread
      · rw [Outcome.dropped_bind hd, Outcome.dropped_bind hes, hdropped, List.flatMap_cons]
        exact congrArg _ (List.append_nil _)

theorem record {name : String} {members : List (String × Json)} (hc : c.DistinctKeys)
    (ih : ∀ f ∈ c.fields name, ∀ x, members.lookup f.key = some x → LogLaw c f.ty x) :
    LogLaw c (.record name) (.object members) := by
  have hlog : (reading c .lenient (.record name) (.object members)).log =
      (fieldsRead c members (c.fields name)).flatMap
        fun f => (readingField c .lenient members f).log := by
    rw [reading_record, Outcome.log_map, log_fields]
  have hread : ∀ f ∈ fieldsRead c members (c.fields name), f ∈ c.fields name :=
    fun f hf => (fieldsRead_initial members _).subset hf
  have hapart : (c.fields name).Pairwise fun f g => ∀ r ∈ (readingField c .lenient members f).log,
      ∀ s ∈ (readingField c .lenient members g).log, ¬r.path.Inside s.path := by
    refine (List.pairwise_map.mp (hc.fields name)).imp ?_
    intro f g hne r hr s hs
    obtain ⟨p, hp⟩ := field_path hr
    obtain ⟨q, hq⟩ := field_path hs
    rw [hp, hq]
    exact Path.not_inside_of_ne (fun h => hne (Segment.key.inj h)) p q
  refine ⟨fun r => ?_, ?_, fun d hd => ?_⟩
  · rw [hlog, List.mem_flatMap]
    refine ⟨?_, ?_⟩
    · intro h
      obtain ⟨f, hf, hr⟩ := h
      obtain ⟨before, after, hfields, hbefore⟩ := mem_fieldsRead.mp hf
      obtain ⟨x, p, u, w, ⟨hx, hnull, hattempt⟩, hfail⟩ :=
        (mem_field_log (ih f (hread f hf)) r).mp hr
      exact ⟨_, u, w, .field hfields hbefore hx hnull hattempt, hfail⟩
    · intro h
      obtain ⟨_, u, w, hattempt, hfail⟩ := h
      cases hattempt with
      | @field _ before after f _ _ x _ p hfields hbefore hx hnull hattempt =>
          have hf := mem_fieldsRead.mpr ⟨before, after, hfields, hbefore⟩
          exact ⟨f, hf, (mem_field_log (ih f (hread f hf)) r).mpr
            ⟨x, p, u, w, ⟨hx, hnull, hattempt⟩, hfail⟩⟩
  · rw [hlog, List.pairwise_flatMap]
    refine ⟨fun f hf => pairwise_field (ih f (hread f hf)) fun p q => .field (hread f hf), ?_⟩
    refine List.pairwise_iff_forall_sublist.mpr fun {f g} hfg r hr s hs => Or.inl ?_
    obtain ⟨p, hp⟩ := field_path hr
    obtain ⟨q, hq⟩ := field_path hs
    rw [hp, hq]
    exact .fields (hfg.trans (fieldsRead_initial members _).sublist)
  · rw [reading_record] at hd
    obtain ⟨es, hes, rfl⟩ := Outcome.map_eq_ok.mp hd
    obtain ⟨hall, hdropped, hok⟩ := fields_of_ok hes
    rw [hlog, hall, lasting_flatMap hapart, reading_record, Outcome.dropped_map, hdropped]
    refine List.flatMap_congr fun f hf => ?_
    obtain ⟨d, hd⟩ := hok f hf
    exact lasting_field (ih f hf) hd

/-! ### The other types -/

theorem scalar (s : Scalar) (v : Json) : LogLaw c (.scalar s) v := by
  refine of_quiet ?_ fun p u w h => nomatch h
  rw [reading_scalar]
  exact Outcome.quiet_ofExcept _

theorem option (ih : LogLaw c t v) : LogLaw c (.option t) v := by
  cases hnull : v.isNull with
  | true =>
      refine of_quiet ?_ fun p u w h => ?_
      · rw [reading_option, if_pos hnull]
        exact ⟨rfl, rfl⟩
      · cases h with
        | option hv _ => cases hnull.symm.trans hv
  | false =>
      have hread : reading c .lenient (.option t) v = Datum.present <$> reading c .lenient t v := by
        rw [reading_option, if_neg (ne_true_of_eq_false hnull)]
      refine ⟨fun r => ?_, ?_, fun d hd => ?_⟩
      · rw [hread, Outcome.log_map, ih.attempted]
        refine exists_congr fun p => exists_congr fun u => exists_congr fun w => ?_
        refine and_congr_left fun _ => ⟨.option hnull, fun h => ?_⟩
        cases h with
        | option _ h => exact h
      · rw [hread, Outcome.log_map]
        refine ih.inOrder.imp fun h => ?_
        exact h.imp_left .option
      · rw [hread] at hd ⊢
        obtain ⟨e, he, -⟩ := Outcome.map_eq_ok.mp hd
        rw [Outcome.log_map, Outcome.dropped_map, ih.reported e he]

/-- An envelope is read as its payload, or as a failure, in which there is no collection. -/
theorem envelope {members : List (String × Json)}
    (ih : ∀ x, members.lookup "ok" = some x → LogLaw c t x) :
    LogLaw c (.envelope t) (.object members) := by
  cases hok : members.lookup "ok" with
  | none =>
      refine of_quiet ?_ fun p u w h => ?_
      · rw [reading_envelope]
        dsimp only
        rw [hok, if_neg nofun]
        split
        · exact (Outcome.quiet_required fun w _ _ => failure_quiet .lenient w).map
        · exact ⟨rfl, rfl⟩
      · cases h with
        | payload hx _ _ => cases hok.symm.trans hx
  | some x =>
      have hread : reading c .lenient (.envelope t) (.object members) =
          Datum.ok <$> readingField c .lenient members (.req "ok" t) := by
        rw [reading_envelope, readingField_eq]
        dsimp only
        rw [if_pos (Option.isSome_iff_exists.mpr ⟨x, hok⟩)]
        rfl
      have ih' : ∀ x, members.lookup (Field.req "ok" t).key = some x → LogLaw c t x := ih
      refine ⟨fun r => ?_, ?_, fun d hd => ?_⟩
      · rw [hread, Outcome.log_map, mem_field_log ih']
        refine ⟨?_, ?_⟩
        · intro h
          obtain ⟨x, p, u, w, ⟨hx, hnull, hattempt⟩, hfail⟩ := h
          exact ⟨_, u, w, .payload hx hnull hattempt, hfail⟩
        · intro h
          obtain ⟨_, u, w, hattempt, hfail⟩ := h
          cases hattempt with
          | payload hx hnull hattempt => exact ⟨_, _, u, w, ⟨hx, hnull, hattempt⟩, hfail⟩
      · rw [hread, Outcome.log_map]
        exact pairwise_field ih' fun p q h => .payload h
      · rw [hread] at hd ⊢
        obtain ⟨e, he, -⟩ := Outcome.map_eq_ok.mp hd
        rw [Outcome.log_map, Outcome.dropped_map, lasting_field ih' he]

end LogLaw

/-- **Every lenient reading keeps the law of the log.** -/
theorem logLaw (hc : c.DistinctKeys) (t : Ty) (v : Json) (hv : v.WellFormed) : LogLaw c t v := by
  induction t, v using Ty.descent c with
  | scalar s v => exact .scalar s v
  | option t v ih => exact .option (ih hv)
  | list t v ih =>
      cases v with
      | array items =>
          exact .list fun w hw => ih items rfl w hw ((Json.itemsWellFormed_iff items).mp hv w hw)
      | _ =>
          refine .of_quiet ?_ fun p u w h => nomatch h
          rw [reading_list]
          exact ⟨rfl, rfl⟩
  | map t v ih =>
      cases v with
      | object members =>
          exact .map hv.1 fun m hm =>
            ih members rfl m hm ((Json.membersWellFormed_iff members).mp hv.2 m hm)
      | _ =>
          refine .of_quiet ?_ fun p u w h => nomatch h
          rw [reading_map]
          exact ⟨rfl, rfl⟩
  | envelope t v ih =>
      cases v with
      | object members => exact .envelope fun x hx => ih members x rfl hx (hv.of_lookup hx)
      | _ =>
          refine .of_quiet ?_ fun p u w h => nomatch h
          rw [reading_envelope]
          exact ⟨rfl, rfl⟩
  | record name v ih =>
      cases v with
      | object members =>
          exact .record hc fun f hf x hx => ih members rfl f hf x hx (hv.of_lookup hx)
      | _ =>
          refine .of_quiet ?_ fun p u w h => nomatch h
          rw [reading_record]
          exact ⟨rfl, rfl⟩

end Larder
