import Larder.Proofs.Outcome

/-!
# What reading a document comes to

The outcome of a reading, one level at a time: a list comes to what its items come to, one after the
other, a record to what its fields come to, and so on. These equations are all that later statements
need to know about `decode`.
-/

namespace Larder

open DecodeM

/-- What reading a document as a value of a type comes to. -/
def reading (c : Catalog) (mode : Mode) (t : Ty) (v : Json) : Outcome Datum :=
  (decode c t v).outcome mode

/-- What reading the items of a list from an index on comes to. -/
def readingItems (c : Catalog) (mode : Mode) (t : Ty) (index : Nat) (items : List Json) :
    Outcome (List Datum) :=
  (decodeItems c t index items).outcome mode

/-- What reading the entries of a map comes to. -/
def readingEntries (c : Catalog) (mode : Mode) (t : Ty) (entries : List (String × Json)) :
    Outcome (List (String × Datum)) :=
  (decodeEntries c t entries).outcome mode

/-- What reading a field from the members of an object comes to. -/
def readingField (c : Catalog) (mode : Mode) (members : List (String × Json)) (f : Field) :
    Outcome Datum :=
  (f.read members fun v _ => decode c f.ty v).outcome mode

/-- What reading fields from the members of an object comes to. -/
def readingFields (c : Catalog) (mode : Mode) (members : List (String × Json))
    (fields : List Field) : Outcome (List (String × Datum)) :=
  (decodeFields c members fields).outcome mode

variable {c : Catalog} {mode : Mode}

/-! ## Whole readings -/

namespace Outcome

variable {α β : Type} {o : Outcome α}

/-- The result of a step taken by a fresh decoder, with what the step left out. -/
def decoded (o : Outcome α) : Except DecodeError (Decoded α) := o.result.map fun a => ⟨a, o.dropped⟩

theorem decoded_eq_ok {d : Decoded α} :
    o.decoded = .ok d ↔ o.result = .ok d.value ∧ o.dropped = d.dropped := by
  obtain ⟨result, dropped, log⟩ := o
  cases result with
  | error e => exact ⟨nofun, fun h => nomatch h.1⟩
  | ok a =>
      refine ⟨?_, ?_⟩
      · intro h
        cases h
        exact ⟨rfl, rfl⟩
      · intro h
        obtain ⟨h, hd⟩ := h
        cases h
        exact congrArg (fun ds => Except.ok (⟨d.value, ds⟩ : Decoded α)) hd

theorem decoded_eq_error {e : DecodeError} : o.decoded = .error e ↔ o.result = .error e := by
  obtain ⟨result, dropped, log⟩ := o
  cases result with
  | error e' => exact ⟨fun h => by cases h; rfl, fun h => by cases h; rfl⟩
  | ok a => exact ⟨nofun, nofun⟩

theorem decoded_map {f : α → β} :
    (f <$> o).decoded = o.decoded.map fun d => ⟨f d.value, d.dropped⟩ := by
  obtain ⟨result, dropped, log⟩ := o
  cases result with
  | error e => rfl
  | ok a =>
      rw [ok_map]
      rfl

end Outcome

/-- The result of a reading, and what it left out, are those of its outcome. -/
theorem decodeValue_eq (c : Catalog) (t : Ty) (mode : Mode) (v : Json) :
    decodeValue c t ⟨mode⟩ v = (reading c mode t v).decoded := rfl

theorem decodeValue_eq_ok {t : Ty} {v : Json} {d : Decoded Datum} :
    decodeValue c t ⟨mode⟩ v = .ok d ↔
      (reading c mode t v).result = .ok d.value ∧ (reading c mode t v).dropped = d.dropped := by
  rw [decodeValue_eq, Outcome.decoded_eq_ok]

theorem decodeValue_eq_error {t : Ty} {v : Json} {e : DecodeError} :
    decodeValue c t ⟨mode⟩ v = .error e ↔ (reading c mode t v).result = .error e := by
  rw [decodeValue_eq, Outcome.decoded_eq_error]

/-! ## Members of an object -/

/-- The outcome of reading a member that has to be there, when reading its value has the outcome
`read`. -/
def Outcome.required {α : Type} (members : List (String × Json)) (key : String)
    (read : Json → Outcome α) : Outcome α :=
  (match members.lookup key with
    | none => fail .missingField
    | some v => if v.isNull then fail .nullField else read v).below (.step (.key key))

/-- The outcome of reading a member that may be absent or null. -/
def Outcome.optional {α : Type} (members : List (String × Json)) (key : String)
    (read : Json → Outcome α) : Outcome (Option α) :=
  match members.lookup key with
  | none => pure none
  | some v => if v.isNull then pure none else (some <$> read v).below (.step (.key key))

theorem Outcome.required_eq_ok {α : Type} {members : List (String × Json)} {key : String}
    {read : Json → Outcome α} {a : α} :
    (Outcome.required members key read).result = .ok a ↔
      ∃ v, members.lookup key = some v ∧ v.isNull = false ∧ (read v).result = .ok a := by
  unfold Outcome.required
  rw [below_eq_ok]
  cases members.lookup key with
  | none => exact ⟨nofun, fun ⟨_, h, _⟩ => nomatch h⟩
  | some v =>
      cases hv : v.isNull with
      | true => simp [hv, fail]
      | false => simp [hv]

theorem Outcome.optional_eq_ok {α : Type} {members : List (String × Json)} {key : String}
    {read : Json → Outcome α} {a? : Option α} :
    (Outcome.optional members key read).result = .ok a? ↔
      (∀ v, members.lookup key = some v → v.isNull = true) ∧ a? = none ∨
      ∃ v a, members.lookup key = some v ∧ v.isNull = false ∧ (read v).result = .ok a ∧
        a? = some a := by
  have none_iff : (pure none : Outcome (Option α)).result = .ok a? ↔ a? = none :=
    ⟨fun h => (Except.ok.inj h).symm, fun h => by rw [h]; rfl⟩
  unfold Outcome.optional
  cases members.lookup key with
  | none =>
      rw [none_iff]
      simp
  | some v =>
      cases hv : v.isNull with
      | true =>
          simp only [hv, if_true, none_iff]
          simp [hv]
      | false =>
          simp only [hv, Bool.false_eq_true, if_false, below_eq_ok, map_eq_ok]
          refine ⟨?_, ?_⟩
          · intro h
            obtain ⟨a, ha, rfl⟩ := h
            exact Or.inr ⟨v, a, rfl, hv, ha, rfl⟩
          · intro h
            rcases h with ⟨h, -⟩ | ⟨v', a, hv', -, ha, rfl⟩
            · rw [h v rfl] at hv
              cases hv
            · cases hv'
              exact ⟨a, ha, rfl⟩

theorem Outcome.required_of_lookup {α : Type} {members : List (String × Json)} {key : String}
    {read : Json → Outcome α} {v : Json} (hv : members.lookup key = some v)
    (hnull : v.isNull = false) :
    Outcome.required members key read = (read v).below (.step (.key key)) := by
  unfold Outcome.required
  rw [hv]
  simp only [hnull, Bool.false_eq_true, if_false]

theorem Outcome.optional_of_lookup {α : Type} {members : List (String × Json)} {key : String}
    {read : Json → Outcome α} {v : Json} (hv : members.lookup key = some v)
    (hnull : v.isNull = false) :
    Outcome.optional members key read = (some <$> read v).below (.step (.key key)) := by
  unfold Outcome.optional
  rw [hv]
  simp only [hnull, Bool.false_eq_true, if_false]

theorem Outcome.dropped_required {α : Type} {members : List (String × Json)} {key : String}
    {read : Json → Outcome α} (h : ∀ v, (read v).dropped = []) :
    (Outcome.required members key read).dropped = [] := by
  unfold Outcome.required
  refine List.map_eq_nil_iff.mpr ?_
  split
  · rfl
  · split
    · rfl
    · exact h _

theorem outcome_required {α : Type} {members : List (String × Json)} {key : String}
    {read : Json → DecodeM α} (hread : ∀ v, Local (read v)) (mode : Mode) :
    (DecodeM.required members key fun v _ => read v).outcome mode =
      .required members key fun v => (read v).outcome mode := by
  unfold DecodeM.required Outcome.required
  rw [outcome_within]
  · congr 1
    cases members.lookup key with
    | none => exact outcome_fail _ _
    | some v => cases hv : v.isNull <;> simp [hv, outcome_fail]
  · cases members.lookup key with
    | none => exact localLaw.fail _
    | some v =>
        cases hv : v.isNull with
        | true => simpa [hv] using localLaw.fail _
        | false => simpa [hv] using hread v

theorem outcome_optional {α : Type} {members : List (String × Json)} {key : String}
    {read : Json → DecodeM α} (hread : ∀ v, Local (read v)) (mode : Mode) :
    (DecodeM.optional members key fun v _ => read v).outcome mode =
      .optional members key fun v => (read v).outcome mode := by
  unfold DecodeM.optional Outcome.optional
  cases members.lookup key with
  | none => exact outcome_pure _ _
  | some v =>
      cases hv : v.isNull with
      | true => simpa [hv] using outcome_pure none mode
      | false =>
          simp only [hv, Bool.false_eq_true, if_false]
          rw [outcome_within _ (localLaw.map _ (hread v)), outcome_map _ (hread v)]

/-- What reading a field comes to. -/
theorem readingField_eq (c : Catalog) (mode : Mode) (members : List (String × Json)) (f : Field) :
    readingField c mode members f =
      if f.required then .required members f.key (reading c mode f.ty)
      else Datum.ofOption <$> .optional members f.key (reading c mode f.ty) := by
  have hread : ∀ v, Local (decode c f.ty v) := fun v => decode_local c f.ty v
  unfold readingField Field.read
  cases f.required with
  | true => exact outcome_required hread mode
  | false =>
      refine (outcome_map _ (localLaw.optional fun v _ => hread v) mode).trans ?_
      rw [outcome_optional hread]
      rfl

/-- What reading a failure comes to, in either mode. -/
theorem reading_failure (v : Json) :
    (Failure.decode v).outcome mode =
      match v with
      | .object members => (do
        let code ← .required members "code" fun w => .ofExcept (Failure.readCode w)
        let description ← .required members "description" fun w =>
          .ofExcept (Failure.readDescription w)
        pure ⟨code, description⟩)
      | v => .fail (.unexpected "object" v) := by
  have hcode : ∀ w, Local (ofExcept (Failure.readCode w)) := fun w => localLaw.ofExcept _
  have hdesc : ∀ w, Local (ofExcept (Failure.readDescription w)) := fun w => localLaw.ofExcept _
  cases v with
  | object members =>
      show (DecodeM.required members "code" (fun w _ => ofExcept (Failure.readCode w)) >>=
        fun code => DecodeM.required members "description"
          (fun w _ => ofExcept (Failure.readDescription w)) >>=
        fun description => (pure ⟨code, description⟩ : DecodeM Failure)).outcome mode = _
      have htail : ∀ code, Local (DecodeM.required members "description"
          (fun w _ => ofExcept (Failure.readDescription w)) >>=
        fun description => (pure ⟨code, description⟩ : DecodeM Failure)) := fun code =>
          localLaw.bind (localLaw.required fun w _ => hdesc w) fun description => localLaw.pure _
      rw [outcome_bind (localLaw.required fun w _ => hcode w) htail, outcome_required hcode]
      simp only [outcome_ofExcept]
      congr 1
      funext code
      rw [outcome_bind (localLaw.required fun w _ => hdesc w) fun description => localLaw.pure _,
        outcome_required hdesc]
      simp only [outcome_ofExcept, outcome_pure]
  | _ => exact outcome_fail _ _

/-- Reading a failure leaves nothing out. -/
theorem failure_dropped (v : Json) : ((Failure.decode v).outcome mode).dropped = [] := by
  rw [reading_failure]
  cases v with
  | object members =>
      refine Outcome.dropped_bind_nil (Outcome.dropped_required fun w => ?_) fun code =>
        Outcome.dropped_bind_nil (Outcome.dropped_required fun w => ?_) fun description => rfl
      · exact Outcome.dropped_ofExcept _
      · exact Outcome.dropped_ofExcept _
  | _ => rfl

/-! ## One level of a reading -/

theorem reading_scalar (s : Scalar) (v : Json) :
    reading c mode (.scalar s) v = .ofExcept (s.read v) := by
  unfold reading
  rw [decode_scalar, outcome_ofExcept]

theorem reading_option (t : Ty) (v : Json) :
    reading c mode (.option t) v =
      if v.isNull then pure .absent else Datum.present <$> reading c mode t v := by
  unfold reading
  rw [decode_option]
  split
  · exact outcome_pure _ _
  · exact outcome_map _ (decode_local c t v) mode

theorem reading_list (t : Ty) (v : Json) :
    reading c mode (.list t) v =
      match v with
      | .null => pure (.list [])
      | .array items => Datum.list <$> readingItems c mode t 0 items
      | v => .fail (.unexpected "array" v) := by
  unfold reading
  rw [decode_list]
  cases v with
  | null => exact outcome_pure _ _
  | array items => exact outcome_map _ (localLaw.items 0 fun w _ => decode_local c t w) mode
  | _ => exact outcome_fail _ _

theorem reading_map (t : Ty) (v : Json) :
    reading c mode (.map t) v =
      match v with
      | .null => pure (.map [])
      | .object members => Datum.map <$> readingEntries c mode t members
      | v => .fail (.unexpected "object" v) := by
  unfold reading
  rw [decode_map]
  cases v with
  | null => exact outcome_pure _ _
  | object members => exact outcome_map _ (localLaw.entries fun e _ => decode_local c t e.2) mode
  | _ => exact outcome_fail _ _

theorem reading_envelope (t : Ty) (v : Json) :
    reading c mode (.envelope t) v =
      match v with
      | .object members =>
        if (members.lookup "ok").isSome then
          Datum.ok <$> .required members "ok" (reading c mode t)
        else if (members.lookup "err").isSome then
          Datum.err <$> .required members "err" fun w => (Failure.decode w).outcome mode
        else .fail .noEnvelope
      | v => .fail (.unexpected "object" v) := by
  unfold reading
  rw [decode_envelope]
  cases v with
  | object members =>
      dsimp only
      split
      · rw [outcome_map _ (localLaw.required fun w _ => decode_local c t w),
          outcome_required fun w => decode_local c t w]
      · split
        · rw [outcome_map _ (localLaw.required fun w _ => localLaw.failure w),
            outcome_required fun w => localLaw.failure w]
        · exact outcome_fail _ _
  | _ => exact outcome_fail _ _

theorem reading_record (name : String) (v : Json) :
    reading c mode (.record name) v =
      match v with
      | .object members => Datum.record <$> readingFields c mode members (c.fields name)
      | v => .fail (.unexpected "object" v) := by
  unfold reading
  rw [decode_record]
  cases v with
  | object members =>
      exact outcome_map _ (localLaw.fields fun f _ w _ => decode_local c f.ty w) mode
  | _ => exact outcome_fail _ _

/-! ## Runs through the parts -/

theorem readingItems_nil (t : Ty) (index : Nat) :
    readingItems c mode t index [] = pure [] := by
  unfold readingItems
  rw [decodeItems]
  exact outcome_pure _ _

theorem readingItems_cons (t : Ty) (index : Nat) (v : Json) (rest : List Json) :
    readingItems c mode t index (v :: rest) = (do
      let d? ← Outcome.entry mode (.index index) (reading c mode t v)
      let ds ← readingItems c mode t (index + 1) rest
      pure (d?.toList ++ ds)) := by
  have hrest : Local (decodeItems c t (index + 1) rest) :=
    localLaw.items _ fun w _ => decode_local c t w
  unfold readingItems
  rw [decodeItems, outcome_bind (localLaw.entry _ (decode_local c t v))
    fun d? => localLaw.bind hrest fun ds => localLaw.pure _]
  rw [outcome_entry _ (decode_local c t v)]
  congr 1
  funext d?
  rw [outcome_bind hrest fun ds => localLaw.pure _]
  simp only [outcome_pure]

theorem readingEntries_nil (t : Ty) : readingEntries c mode t [] = pure [] := by
  unfold readingEntries
  rw [decodeEntries]
  exact outcome_pure _ _

theorem readingEntries_cons (t : Ty) (key : String) (v : Json) (rest : List (String × Json)) :
    readingEntries c mode t ((key, v) :: rest) = (do
      let d? ← Outcome.entry mode (.key key) (reading c mode t v)
      let ds ← readingEntries c mode t rest
      pure (d?.toList.map (key, ·) ++ ds)) := by
  have hrest : Local (decodeEntries c t rest) :=
    localLaw.entries fun e _ => decode_local c t e.2
  unfold readingEntries
  rw [decodeEntries, outcome_bind (localLaw.entry _ (decode_local c t v))
    fun d? => localLaw.bind hrest fun ds => localLaw.pure _]
  rw [outcome_entry _ (decode_local c t v)]
  congr 1
  funext d?
  rw [outcome_bind hrest fun ds => localLaw.pure _]
  simp only [outcome_pure]

/-- The outcome of reading labelled entries one after the other, and keeping the labels. -/
def Outcome.entries {κ : Type} (segment : κ → Segment) (mode : Mode)
    (read : Json → Outcome Datum) : List (κ × Json) → Outcome (List (κ × Datum))
  | [] => pure []
  | (label, v) :: rest => do
    let d? ← entry mode (segment label) (read v)
    let ds ← entries segment mode read rest
    pure (d?.toList.map (label, ·) ++ ds)

theorem readingEntries_eq_entries (t : Ty) : ∀ members : List (String × Json),
    readingEntries c mode t members = .entries .key mode (reading c mode t) members
  | [] => readingEntries_nil t
  | (key, v) :: rest => by
      rw [readingEntries_cons, readingEntries_eq_entries t rest, Outcome.entries]

/-- The items of a list are entries with their indices for labels. -/
theorem readingItems_eq_entries (t : Ty) : ∀ (index : Nat) (items : List Json),
    readingItems c mode t index items = List.map Prod.snd <$>
      .entries .index mode (reading c mode t) ((items.zipIdx index).map Prod.swap)
  | index, [] => readingItems_nil t index
  | index, v :: rest => by
      rw [readingItems_cons, readingItems_eq_entries t (index + 1) rest, List.zipIdx_cons,
        List.map_cons, Prod.swap_prod_mk, Outcome.entries, Outcome.map_bind]
      congr 1
      funext d?
      rw [Outcome.map_bind, Outcome.bind_map]
      congr 1
      funext ds
      cases d? <;> rfl

theorem readingFields_nil (members : List (String × Json)) :
    readingFields c mode members [] = pure [] := by
  unfold readingFields
  rw [decodeFields]
  exact outcome_pure _ _

theorem readingFields_cons (members : List (String × Json)) (f : Field) (rest : List Field) :
    readingFields c mode members (f :: rest) = (do
      let d ← readingField c mode members f
      let ds ← readingFields c mode members rest
      pure ((f.key, d) :: ds)) := by
  have hfield : Local (f.read members fun v _ => decode c f.ty v) :=
    localLaw.field fun v _ => decode_local c f.ty v
  have hrest : Local (decodeFields c members rest) :=
    localLaw.fields fun g _ w _ => decode_local c g.ty w
  unfold readingFields
  rw [decodeFields, outcome_bind hfield fun d => localLaw.bind hrest fun ds => localLaw.pure _]
  show readingField c mode members f >>= _ = _
  congr 1
  funext d
  rw [outcome_bind hrest fun ds => localLaw.pure _]
  simp only [outcome_pure]

/-! ## Records without collections -/

theorem readingFields_scalars (mode' : Mode) (members : List (String × Json)) :
    ∀ {fields : List Field}, (∀ f ∈ fields, ∃ s, f.ty = .scalar s) →
      readingFields c mode members fields = readingFields c mode' members fields
  | [], _ => by rw [readingFields_nil, readingFields_nil]
  | f :: rest, h => by
      obtain ⟨s, hs⟩ := h f List.mem_cons_self
      have hrest := readingFields_scalars mode' members fun g hg => h g (List.mem_cons_of_mem f hg)
      have hread : reading c mode f.ty = reading c mode' f.ty := by
        funext v
        rw [hs, reading_scalar, reading_scalar]
      rw [readingFields_cons, readingFields_cons, readingField_eq, readingField_eq, hread, hrest]

/-- A record of scalars is read alike in both modes. -/
theorem reading_scalars {name : String} (h : ∀ f ∈ c.fields name, ∃ s, f.ty = .scalar s)
    (mode' : Mode) (v : Json) :
    reading c mode (.record name) v = reading c mode' (.record name) v := by
  rw [reading_record, reading_record]
  cases v with
  | object members =>
      dsimp only
      rw [readingFields_scalars mode' members h]
  | _ => rfl

end Larder
