import ParseOutcome.Observation.Furthest

/-!
# What is selected as the furthest

Items are compared by their positions, which not all of them need have.  The item
that is selected leads the others: whatever stands before it and has a position is
less far, and whatever stands after it is no further.  A list has at most one place
whose item leads, so this tells which occurrence is selected, also where items are
equal or at one position.

To pick is to fold with `better`, which is associative.  So what is picked from two
lists in a row is the better of what is picked from each (`pick?_append`).  All else
follows from this law, which peels off the items before the one that is picked.
-/

namespace ParseOutcome.Furthest

variable {β : Type}

/-! ## Picking from two lists in a row -/

theorem better_of_le {best candidate : β × Nat} (hle : candidate.2 ≤ best.2) :
    better best candidate = best :=
  if_pos hle

theorem better_of_lt {best candidate : β × Nat} (hlt : best.2 < candidate.2) :
    better best candidate = candidate :=
  if_neg (Nat.not_le_of_lt hlt)

theorem better_assoc (first second third : β × Nat) :
    better (better first second) third = better first (better second third) := by
  -- either way the earliest of the greatest is left
  rcases Nat.lt_or_ge first.2 second.2 with hfirst | hfirst
  · rw [better_of_lt hfirst]
    rcases Nat.lt_or_ge second.2 third.2 with hsecond | hsecond
    · rw [better_of_lt hsecond, better_of_lt (Nat.lt_trans hfirst hsecond)]
    · rw [better_of_le hsecond, better_of_lt hfirst]
  · rw [better_of_le hfirst]
    rcases Nat.lt_or_ge second.2 third.2 with hsecond | hsecond
    · rw [better_of_lt hsecond]
    · rw [better_of_le hsecond, better_of_le hfirst, better_of_le (Nat.le_trans hsecond hfirst)]

instance : Std.Associative (better : β × Nat → β × Nat → β × Nat) := ⟨better_assoc⟩

theorem pick?_append (first second : List (β × Nat)) :
    pick? (first ++ second) = (pick? first).merge better (pick? second) := by
  cases first with
  | nil => simp [pick?]
  | cons head rest =>
      cases second with
      | nil => simp [pick?]
      | cons head' rest' =>
          simp only [pick?, List.cons_append, List.foldl_append, List.foldl_cons]
          rw [List.foldl_assoc]
          rfl

theorem pick?_cons (item : β × Nat) (rest : List (β × Nat)) :
    pick? (item :: rest) = (some item).merge better (pick? rest) :=
  pick?_append [item] rest

theorem pick?_eq_none_iff {items : List (β × Nat)} : pick? items = none ↔ items = [] := by
  cases items <;> simp [pick?]

/-! ## The item that is picked -/

theorem exists_cut_of_pick? {items : List (β × Nat)} {best : β × Nat}
    (hpick : pick? items = some best) :
    ∃ before after, items = before ++ best :: after ∧ (∀ item ∈ before, item.2 < best.2) ∧
      ∀ item ∈ after, item.2 ≤ best.2 := by
  induction items generalizing best with
  | nil => simp [pick?] at hpick
  | cons item rest ih =>
      rw [pick?_cons] at hpick
      cases hrest : pick? rest with
      | none =>
          rw [pick?_eq_none_iff] at hrest
          subst hrest
          obtain rfl : item = best := by simpa [pick?] using hpick
          exact ⟨[], [], rfl, by simp, by simp⟩
      | some other =>
          obtain ⟨before, after, rfl, hbefore, hafter⟩ := ih hrest
          obtain rfl : better item other = best := by simpa [hrest] using hpick
          rcases Nat.lt_or_ge item.2 other.2 with hlt | hge
          · -- the best of the rest is further, so the new item only comes before it
            rw [better_of_lt hlt]
            refine ⟨item :: before, after, rfl, fun earlier hearlier => ?_, hafter⟩
            rcases List.mem_cons.mp hearlier with rfl | hearlier
            · exact hlt
            · exact hbefore earlier hearlier
          · -- nothing of the rest is further, so the new item is the best with nothing before it
            rw [better_of_le hge]
            refine ⟨[], before ++ other :: after, rfl, by simp, fun later hlater => ?_⟩
            rcases List.mem_append.mp hlater with hlater | hlater
            · exact Nat.le_trans (Nat.le_of_lt (hbefore later hlater)) hge
            rcases List.mem_cons.mp hlater with rfl | hlater
            · exact hge
            · exact Nat.le_trans (hafter later hlater) hge

theorem mem_of_pick? {items : List (β × Nat)} {best : β × Nat}
    (hpick : pick? items = some best) : best ∈ items := by
  obtain ⟨before, after, rfl, -, -⟩ := exists_cut_of_pick? hpick
  simp

theorem pick?_of_cut {before after : List (β × Nat)} {best : β × Nat}
    (hbefore : ∀ item ∈ before, item.2 < best.2) (hafter : ∀ item ∈ after, item.2 ≤ best.2) :
    pick? (before ++ best :: after) = some best := by
  have htail : pick? (best :: after) = some best := by
    rw [pick?_cons]
    cases hpick : pick? after with
    | none => rfl
    | some other => exact congrArg some (better_of_le (hafter other (mem_of_pick? hpick)))
  rw [pick?_append, htail]
  cases hpick : pick? before with
  | none => rfl
  | some other => exact congrArg some (better_of_lt (hbefore other (mem_of_pick? hpick)))

/-! ## The item that is selected -/

/-- The items that have a position, each with its own. -/
def positioned (position : β → Option Nat) (items : List β) : List (β × Nat) :=
  items.filterMap fun item => (position item).map (item, ·)

theorem byPosition?_eq (position : β → Option Nat) (items : List β) :
    byPosition? position items = (pick? (positioned position items)).map Prod.fst := rfl

theorem mem_positioned {position : β → Option Nat} {items : List β} {entry : β × Nat} :
    entry ∈ positioned position items ↔ entry.1 ∈ items ∧ position entry.1 = some entry.2 := by
  obtain ⟨item, reach⟩ := entry
  simp [positioned, List.mem_filterMap]

/-- Between the items before it and those after it, an item leads: those before it are
less far, and those after it no further. -/
def Leads (position : β → Option Nat) (before : List β) (item : β) (after : List β) : Prop :=
  ∃ depth, position item = some depth ∧
    (∀ earlier ∈ before, ∀ reach, position earlier = some reach → reach < depth) ∧
    ∀ later ∈ after, ∀ reach, position later = some reach → reach ≤ depth

theorem byPosition?_of_leads {position : β → Option Nat} {before after : List β} {item : β}
    (hleads : Leads position before item after) :
    byPosition? position (before ++ item :: after) = some item := by
  obtain ⟨depth, hdepth, hbefore, hafter⟩ := hleads
  have hsplit : positioned position (before ++ item :: after) =
      positioned position before ++ (item, depth) :: positioned position after := by
    simp [positioned, hdepth]
  rw [byPosition?_eq, hsplit, pick?_of_cut]
  · rfl
  · intro entry hentry
    obtain ⟨hmem, hreach⟩ := mem_positioned.mp hentry
    exact hbefore entry.1 hmem entry.2 hreach
  · intro entry hentry
    obtain ⟨hmem, hreach⟩ := mem_positioned.mp hentry
    exact hafter entry.1 hmem entry.2 hreach

theorem exists_leads_of_byPosition? {position : β → Option Nat} {items : List β} {item : β}
    (hselected : byPosition? position items = some item) :
    ∃ before after, items = before ++ item :: after ∧ Leads position before item after := by
  rw [byPosition?_eq] at hselected
  obtain ⟨⟨_, depth⟩, hpick, rfl⟩ := Option.map_eq_some_iff.mp hselected
  obtain ⟨before', after', hsplit, hbefore, hafter⟩ := exists_cut_of_pick? hpick
  -- a cut of the positioned items is a cut of the items
  obtain ⟨before, tail, rfl, rfl, htail⟩ := List.filterMap_eq_append_iff.mp hsplit
  obtain ⟨skipped, item', after, rfl, hskipped, hitem, rfl⟩ := List.filterMap_eq_cons_iff.mp htail
  obtain ⟨_, hdepth, hpair⟩ := Option.map_eq_some_iff.mp hitem
  obtain ⟨rfl, rfl⟩ := Prod.mk.inj hpair
  refine ⟨before ++ skipped, after, by simp, _, hdepth, ?_, ?_⟩
  · intro earlier hearlier reach hreach
    rcases List.mem_append.mp hearlier with hmem | hmem
    · exact hbefore (earlier, reach) (mem_positioned.mpr ⟨hmem, hreach⟩)
    · have hnone := hskipped earlier hmem
      simp [hreach] at hnone
  · intro later hlater reach hreach
    exact hafter (later, reach) (mem_positioned.mpr ⟨hlater, hreach⟩)

/-- **What is selected is what leads.** -/
theorem byPosition?_eq_some_iff {position : β → Option Nat} {items : List β} {item : β} :
    byPosition? position items = some item ↔
      ∃ before after, items = before ++ item :: after ∧ Leads position before item after := by
  constructor
  · exact exists_leads_of_byPosition?
  · rintro ⟨before, after, rfl, hleads⟩
    exact byPosition?_of_leads hleads

theorem byPosition?_eq_none_iff {position : β → Option Nat} {items : List β} :
    byPosition? position items = none ↔ ∀ item ∈ items, position item = none := by
  rw [byPosition?_eq, Option.map_eq_none_iff, pick?_eq_none_iff, positioned,
    List.filterMap_eq_nil_iff]
  simp

theorem leads_map {γ : Type} (position : γ → Option Nat) (f : β → γ) (before : List β) (item : β)
    (after : List β) :
    Leads position (before.map f) (f item) (after.map f) ↔
      Leads (fun other => position (f other)) before item after := by
  simp only [Leads, List.forall_mem_map]

theorem byPosition?_map {γ : Type} (position : γ → Option Nat) (f : β → γ) (items : List β) :
    byPosition? position (items.map f) =
      (byPosition? (fun item => position (f item)) items).map f := by
  cases hselected : byPosition? (fun item => position (f item)) items with
  | none =>
      rw [byPosition?_eq_none_iff] at hselected
      exact byPosition?_eq_none_iff.mpr (List.forall_mem_map.mpr hselected)
  | some item =>
      obtain ⟨before, after, rfl, hleads⟩ := byPosition?_eq_some_iff.mp hselected
      rw [List.map_append, List.map_cons]
      exact byPosition?_of_leads ((leads_map position f before item after).mpr hleads)

/-! ## Observations and their places -/

theorem furthest?_eq_none_iff {observations : List Observation} :
    Observation.furthest? observations = none ↔
      ∀ observation ∈ observations, observation.position = none := by
  have hmap := List.forall_mem_map (f := Prod.fst) (l := observations.zipIdx)
    (P := fun observation => observation.position = none)
  rw [List.zipIdx_map_fst] at hmap
  rw [Observation.furthest?, byPosition?_eq_none_iff]
  exact hmap.symm

theorem furthest?_eq_some_iff {observations : List Observation} {selected : Observation}
    {place : Nat} :
    Observation.furthest? observations = some (selected, place) ↔
      ∃ before after, observations = before ++ selected :: after ∧ before.length = place ∧
        Leads Observation.position before selected after := by
  have hleads : ∀ (before after : List Observation) (start next : Nat),
      Leads (fun entry : Observation × Nat => entry.1.position) (before.zipIdx start)
          (selected, place) (after.zipIdx next) ↔
        Leads Observation.position before selected after := by
    intro before after start next
    have hmap := leads_map Observation.position Prod.fst (before.zipIdx start) (selected, place)
      (after.zipIdx next)
    rw [List.zipIdx_map_fst, List.zipIdx_map_fst] at hmap
    exact hmap.symm
  rw [Observation.furthest?, byPosition?_eq_some_iff]
  constructor
  · rintro ⟨before', after', hsplit, hselected⟩
    obtain ⟨before, tail, rfl, rfl, htail⟩ := List.zipIdx_eq_append_iff.mp hsplit
    obtain ⟨_, after, rfl, hpair, rfl⟩ := List.zipIdx_eq_cons_iff.mp htail.symm
    obtain ⟨rfl, hplace⟩ := Prod.mk.inj hpair
    exact ⟨before, after, rfl, by omega, (hleads _ _ _ _).mp hselected⟩
  · rintro ⟨before, after, rfl, rfl, hselected⟩
    refine ⟨before.zipIdx, after.zipIdx (before.length + 1), ?_, (hleads _ _ _ _).mpr hselected⟩
    simp [List.zipIdx_append]

theorem mem_of_furthest? {observations : List Observation} {selected : Observation × Nat}
    (hselected : Observation.furthest? observations = some selected) :
    selected.1 ∈ observations := by
  obtain ⟨before, after, rfl, -⟩ := furthest?_eq_some_iff.mp hselected
  exact List.mem_append_right before List.mem_cons_self

end ParseOutcome.Furthest
