import Larder.Proofs.DocumentSpelling

/-!
# Documents that nest too deep are refused

A document can be printed that the reader does not take back, since it opens no more than a fixed
number of containers at a time. Its text leads the reader as any text does until the first bracket
or brace too many, and there the reader stops (`Refuses`), whatever follows. Only a number out of
range could stop it before.
-/

namespace Larder.Json

open Reader

namespace Reader

variable {s s' : State} {waiting : List Frame} {cs ds : List Char}

/-- Among the characters is one that opens a container too many, whatever comes after them. -/
def Refuses (s : State) (cs : List Char) : Prop :=
  ∀ position, ∃ place, ∀ rest, (ofState s position).run (cs ++ rest) = .error ⟨.tooDeep, place⟩

theorem Refuses.append (h : Refuses s cs) (ds : List Char) : Refuses s (cs ++ ds) := by
  intro position
  obtain ⟨place, hrun⟩ := h position
  refine ⟨place, fun rest => ?_⟩
  rw [List.append_assoc, hrun]

theorem Leads.refuses (h : Leads s cs s') (h' : Refuses s' ds) : Refuses s (cs ++ ds) := by
  intro position
  obtain ⟨position', hlead⟩ := h position
  obtain ⟨place, hrun⟩ := h' position'
  refine ⟨place, fun rest => ?_⟩
  rw [List.append_assoc, hlead, hrun]

/-- A character at which the reader stops. -/
theorem refuses_step {c : Char}
    (hsettle : ∀ position, (ofState s position).settle c = .ok (ofState s position))
    (hdue : ∀ v, s.2 ≠ .nothing v)
    (hstep : ∀ position, (ofState s position).step c = .error ⟨.tooDeep, position.touch c⟩)
    (cs : List Char) : Refuses s (c :: cs) := by
  intro position
  refine ⟨position.touch c, fun rest => ?_⟩
  rw [List.cons_append, run_step (hsettle position) hdue, hstep]
  rfl

/-- The bracket or brace that opens a container too many. -/
theorem Opens.refuses (hs : Opens s waiting) (hfull : depthLimit ≤ waiting.length) {c : Char}
    (hc : c = '[' ∨ c = '{') (cs : List Char) : Refuses s (c :: cs) := by
  have hbegin : beginValue waiting c = .error .tooDeep := by
    have hquote : c ≠ '"' := by
      rcases hc with rfl | rfl <;> decide
    rw [beginValue, if_neg hquote, if_pos hc, if_pos hfull]
  have hblank : isBlank c = false := by
    rcases hc with rfl | rfl <;> rfl
  have hclose : c ≠ ']' := by
    rcases hc with rfl | rfl <;> decide
  have hstructural : BetweenTokens s.2 ∧ structural s.1 s.2 c = .error .tooDeep := by
    cases hs with
    | value => exact ⟨trivial, hbegin⟩
    | first => exact ⟨trivial, (if_neg hclose).trans hbegin⟩
    | next items => exact ⟨trivial, (if_neg hclose).trans hbegin⟩
  obtain ⟨hbetween, hstructural⟩ := hstructural
  refine refuses_step (fun _ => ?_) (fun v hv => ?_) (fun position => ?_) cs
  · cases hs <;> rfl
  · cases hs <;> cases hv
  · rw [ofState, step_between hbetween, if_neg (ne_true_of_eq_false hblank), hstructural]
    rfl

/-- A value, and more after it, of which one part nests too deep. -/
theorem Opens.refuses_then (hs : Opens s waiting) {v w : Json} (hv : v.WellFormed)
    (hw : v.reread = some w) {more : Nat}
    (hdeep : depthLimit < max v.depth more + waiting.length)
    (hvalue : depthLimit < v.depth + waiting.length → Refuses s v.chars)
    (hmore : ∀ s', Ready w waiting s' → depthLimit < more + waiting.length → Refuses s' cs) :
    Refuses s (v.chars ++ cs) := by
  by_cases hfits : v.depth + waiting.length ≤ depthLimit
  · obtain ⟨s', hready, hlead⟩ := leads_chars v hs ⟨hv, hfits⟩ hw
    have hrest : depthLimit < more + waiting.length := by omega
    exact hlead.refuses (hmore s' hready hrest)
  · exact (hvalue (Nat.not_le.mp hfits)).append cs

end Reader

mutual

/-- The text of a document is refused, where a value may begin, if its containers are too many
inside the containers that wait. -/
theorem refuses_chars : ∀ (v : Json) {w : Json} {s : State} {waiting : List Frame}, Opens s waiting →
    v.WellFormed → v.reread = some w → waiting.length ≤ depthLimit →
      depthLimit < v.depth + waiting.length → Refuses s v.chars
  | .null, _, _, _, _, _, _, hroom, hdeep | .bool _, _, _, _, _, _, _, hroom, hdeep
  | .number _, _, _, _, _, _, _, hroom, hdeep | .string _, _, _, _, _, _, _, hroom, hdeep =>
      absurd hroom (Nat.not_le.mpr (hdeep.trans_eq (Nat.zero_add _)))
  | .array [], _, _, waiting, hs, _, _, _, hdeep => by
      rw [depth, itemsDepth] at hdeep
      exact hs.refuses (by omega) (.inl rfl) _
  | .array (v :: rest), _, s, waiting, hs, hwf, hw, _, hdeep => by
      rw [depth, itemsDepth, Nat.add_assoc, Nat.add_comm 1] at hdeep
      obtain ⟨_, hwitems, rfl⟩ := reread_array.mp hw
      obtain ⟨w, hwv, ws, hwrest, rfl⟩ := rereadItems_cons.mp hwitems
      by_cases hroom : waiting.length < depthLimit
      · refine (hs.leads (beginValue_bracket hroom)).refuses ?_
        refine (Opens.first waiting).refuses_then hwf.1 hwv hdeep ?_ fun s' hready hrest => ?_
        · exact refuses_chars v (.first waiting) hwf.1 hwv hroom
        · exact (refuses_furtherItems rest hready hwf.2 hwrest hroom hrest).append [']']
      · exact hs.refuses (Nat.not_lt.mp hroom) (.inl rfl) _
  | .object [], _, _, waiting, hs, _, _, _, hdeep => by
      rw [depth, membersDepth] at hdeep
      exact hs.refuses (by omega) (.inr rfl) _
  | .object ((key, v) :: rest), _, s, waiting, hs, hwf, hw, _, hdeep => by
      rw [depth, membersDepth, Nat.add_assoc, Nat.add_comm 1] at hdeep
      obtain ⟨_, hwmembers, rfl⟩ := reread_object.mp hw
      obtain ⟨w, hwv, ms, hwrest, rfl⟩ := rereadMembers_cons.mp hwmembers
      by_cases hroom : waiting.length < depthLimit
      · have hmember : Leads (waiting, .firstKey) (Text.quoted key ++ [':'])
            (.member [] key :: waiting, .value) :=
          leads_member key (leads_structural trivial rfl rfl)
        have hmembers : Refuses (.member [] key :: waiting, .value)
            (v.chars ++ (furtherMembers rest ++ ['}'])) := by
          refine (Opens.value _).refuses_then hwf.2.1 hwv hdeep ?_ fun s' hready hrest => ?_
          · exact refuses_chars v (.value _) hwf.2.1 hwv hroom
          · exact (refuses_furtherMembers rest hready hwf.2.2 hwrest hroom hrest).append ['}']
        have hall := (hs.leads (beginValue_brace hroom)).refuses (hmember.refuses hmembers)
        rwa [List.append_assoc] at hall
      · exact hs.refuses (Nat.not_lt.mp hroom) (.inr rfl) _

/-- The items after one that has been read. -/
theorem refuses_furtherItems : ∀ (items : List Json) {ws before : List Json} {v : Json}
    {waiting : List Frame} {s : State}, Ready v (.list before :: waiting) s →
      ItemsWellFormed items → rereadItems items = some ws → waiting.length < depthLimit →
        depthLimit < itemsDepth items + (waiting.length + 1) → Refuses s (furtherItems items)
  | [], _, _, _, _, _, _, _, _, hroom, hdeep =>
      absurd hroom (Nat.not_lt.mpr (Nat.le_of_lt_succ (hdeep.trans_eq (Nat.zero_add _))))
  | x :: rest, _, before, v, waiting, s, hs, hwf, hws, hroom, hdeep => by
      obtain ⟨w, hw, ws, hwrest, rfl⟩ := rereadItems_cons.mp hws
      have hcomma : Leads s [','] (waiting, .nextItem (v :: before)) := hs.leads (by simp) rfl
      refine hcomma.refuses ?_
      refine Opens.refuses_then (.next waiting (v :: before)) hwf.1 hw hdeep ?_ ?_
      · exact refuses_chars x (.next waiting (v :: before)) hwf.1 hw hroom
      · exact fun s' hready hrest => refuses_furtherItems rest hready hwf.2 hwrest hroom hrest

/-- The members after one that has been read. -/
theorem refuses_furtherMembers : ∀ (members : List (String × Json))
    {ms before : List (String × Json)} {key : String} {v : Json} {waiting : List Frame}
    {s : State}, Ready v (.member before key :: waiting) s → MembersWellFormed members →
      rereadMembers members = some ms → waiting.length < depthLimit →
        depthLimit < membersDepth members + (waiting.length + 1) → Refuses s (furtherMembers members)
  | [], _, _, _, _, _, _, _, _, _, hroom, hdeep =>
      absurd hroom (Nat.not_lt.mpr (Nat.le_of_lt_succ (hdeep.trans_eq (Nat.zero_add _))))
  | (k, x) :: rest, _, before, key, v, waiting, s, hs, hwf, hms, hroom, hdeep => by
      obtain ⟨w, hw, ms, hwrest, rfl⟩ := rereadMembers_cons.mp hms
      let members := Keyed.insert key v before
      have hcomma : Leads s [','] (waiting, .nextKey members) := hs.leads (by simp) rfl
      have hmember : Leads (waiting, .nextKey members) (Text.quoted k ++ [':'])
          (.member members k :: waiting, .value) :=
        leads_member k (leads_structural trivial rfl rfl)
      have hmembers : Refuses (.member members k :: waiting, .value)
          (x.chars ++ furtherMembers rest) := by
        refine (Opens.value _).refuses_then hwf.1 hw hdeep ?_ fun s' hready hrest => ?_
        · exact refuses_chars x (.value _) hwf.1 hw hroom
        · exact refuses_furtherMembers rest hready hwf.2 hwrest hroom hrest
      have hall := hcomma.refuses (hmember.refuses hmembers)
      rwa [List.append_assoc] at hall

end

/-- **A document that nests too deep is not read back** from its compact text. -/
theorem readFirst_compact_refused {v : Json} (hv : v.WellFormed) (hlegible : v.Legible)
    (hdeep : depthLimit < v.depth) :
    ∃ place, readFirst v.compact = .error ⟨.tooDeep, place⟩ := by
  obtain ⟨w, hw⟩ := hlegible.exists
  obtain ⟨place, hrun⟩ :=
    refuses_chars v (.value []) hv hw (Nat.zero_le depthLimit) hdeep .start
  have hend := hrun []
  rw [List.append_nil] at hend
  refine ⟨place, ?_⟩
  show (ofState ([], .value) .start).run (String.ofList v.chars).toList = _
  rw [String.toList_ofList, hend]

end Larder.Json
