import PriceEngine.CostMigrations

/-!
# What the cost tables keep

Ids and shapes of definitions are never there twice, each definition has one
allocation rule, and each rate is one its column and constraints admit.
Resolving a spec and either migration keep this and take no definition away, so
a spec resolves to the same id for ever.
-/

namespace PriceEngine.MockPmApp

/-! ## Well-formed tables -/

structure CatalogueOk (c : Catalogue) : Prop where
  registered : Registered (·.costDefinitionId) shapeOf c.definitions
  ruled : (c.rules.map (·.costDefinitionId)).Perm (c.definitions.map (·.costDefinitionId))
  scaled : ∀ row ∈ c.definitions, storedShape (shapeOf row) = shapeOf row
  rates : c.ensured = true → ∀ row ∈ c.definitions, rateChecks (shapeOf row) = true
  unrated : c.ensured = false → ∀ row ∈ c.definitions, row.rate = none

/-- The shapes that are ever inserted. -/
inductive Known : CostShape → Prop
  | spec {spec : CostDefinitionSpec} : spec ∈ costDefinitionSpecs → Known spec.toCostShape
  | commission (base : RevenueBase) (rate : ℚ) : Known (commissionShape base rate)
  | legacy (cost : LegacyCost) : Known (legacyShape cost)

/-- Nothing of the first catalogue is missing or changed in the second, and what is new is of a known shape. -/
structure Extends (c c' : Catalogue) : Prop where
  ensured : c.ensured = true → c'.ensured = true
  definitions : ∀ row ∈ c.definitions, row ∈ c'.definitions
  added : ∀ row ∈ c'.definitions, row ∈ c.definitions ∨ Known (shapeOf row)
  rules : ∀ rule ∈ c.rules, ∃ rule' ∈ c'.rules, rule'.costDefinitionId = rule.costDefinitionId ∧
    rule'.method = rule.method ∧ (rule.weightConfig ≠ none → rule' = rule)

theorem Extends.refl (c : Catalogue) : Extends c c :=
  ⟨fun h => h, fun _ h => h, fun _ h => .inl h, fun rule h => ⟨rule, h, rfl, rfl, fun _ => rfl⟩⟩

theorem Extends.trans {c c' c'' : Catalogue} (h : Extends c c') (h' : Extends c' c'') : Extends c c'' := by
  refine ⟨fun he => h'.ensured (h.ensured he), fun row hrow => h'.definitions row (h.definitions row hrow),
    fun row hrow => (h'.added row hrow).elim (h.added row) .inr, fun rule hrule => ?_⟩
  obtain ⟨r, hr, hid, hmethod, hset⟩ := h.rules rule hrule
  obtain ⟨r', hr', hid', hmethod', hset'⟩ := h'.rules r hr
  refine ⟨r', hr', hid'.trans hid, hmethod'.trans hmethod, fun hne => ?_⟩
  have hrr := hset hne
  rw [hset' (by rw [hrr]; exact hne), hrr]

theorem shapeOf_of_id {c : Catalogue} (h : CatalogueOk c) {row row' : CostDefinitionRow} (hrow : row ∈ c.definitions)
    (hrow' : row' ∈ c.definitions) (hshape : shapeOf row = shapeOf row') :
    row.costDefinitionId = row'.costDefinitionId := by
  rw [h.registered.eq_of_shape hrow hrow' hshape]

/-! ## Inserting definitions -/

theorem insertDefinition_eq_some {c c' : Catalogue} {id : String} {shape : CostShape} :
    insertDefinition c id shape = some c' ↔ rateChecks (storedShape shape) = true ∧
      id ∉ c.definitions.map (·.costDefinitionId) ∧
      c' = { c with definitions := c.definitions ++ [(storedShape shape).row id] } := by
  unfold insertDefinition
  by_cases h : rateChecks (storedShape shape) = true ∧ id ∉ c.definitions.map (·.costDefinitionId)
  · rw [if_pos h]
    simp only [Option.some.injEq, h.1, h.2, not_false_eq_true, true_and]
    exact eq_comm
  · rw [if_neg h]
    simp only [reduceCtorEq, false_iff]
    exact fun h' => h ⟨h'.1, h'.2.1⟩

theorem define_eq_some {t t' : Transaction} {shape : CostShape} {id : String} :
    define t shape = some (t', id) ↔ t.uuids = id :: t'.uuids ∧ rateChecks (storedShape shape) = true ∧
      id ∉ t.catalogue.definitions.map (·.costDefinitionId) ∧ t'.catalogue =
        { t.catalogue with definitions := t.catalogue.definitions ++ [(storedShape shape).row id] } := by
  obtain ⟨c', uuids'⟩ := t'
  unfold define
  cases t.uuids with
  | nil => simp
  | cons i uuids =>
    simp only [Option.map_eq_some_iff, insertDefinition_eq_some, Prod.mk.injEq, Transaction.mk.injEq, List.cons.injEq]
    constructor
    · rintro ⟨c, ⟨hrate, hid, rfl⟩, ⟨rfl, rfl⟩, rfl⟩
      exact ⟨⟨rfl, rfl⟩, hrate, hid, rfl⟩
    · rintro ⟨⟨rfl, rfl⟩, hrate, hid, rfl⟩
      exact ⟨_, ⟨hrate, hid, rfl⟩, ⟨rfl, rfl⟩, rfl⟩

theorem insertRule_eq_some {c c' : Catalogue} {rule : CostAllocationRuleRow} (h : insertRule c rule = some c') :
    c' = { c with rules := c.rules ++ [rule] } := by
  unfold insertRule at h
  split_ifs at h
  exact (Option.some.inj h).symm

theorem defineWithRule_eq_some {t t' : Transaction} {shape : CostShape} {method : AllocationMethod}
    {weightConfig : Option (Dict String ℚ)} {id : String}
    (h : defineWithRule t shape method weightConfig = some (t', id)) :
    rateChecks (storedShape shape) = true ∧ id ∉ t.catalogue.definitions.map (·.costDefinitionId) ∧
      t'.catalogue = { t.catalogue with
        definitions := t.catalogue.definitions ++ [(storedShape shape).row id]
        rules := t.catalogue.rules ++ [⟨id, method, weightConfig⟩] } := by
  unfold defineWithRule at h
  simp only [Option.bind_eq_bind, Option.bind_eq_some_iff, Option.some.injEq, Prod.mk.injEq] at h
  obtain ⟨⟨t₁, id₁⟩, hdefine, c, hrule, rfl, rfl⟩ := h
  obtain ⟨-, hrate, hid, hc⟩ := define_eq_some.mp hdefine
  have hc' := insertRule_eq_some hrule
  rw [hc] at hc'
  exact ⟨hrate, hid, hc'⟩

/-- A definition of a new shape, with its rule. -/
theorem CatalogueOk.defineWithRule {t t' : Transaction} {shape : CostShape} {method : AllocationMethod}
    {weightConfig : Option (Dict String ℚ)} {id : String} (hok : CatalogueOk t.catalogue)
    (hensured : t.catalogue.ensured = true) (hnew : ∀ row ∈ t.catalogue.definitions, shapeOf row ≠ storedShape shape)
    (h : MockPmApp.defineWithRule t shape method weightConfig = some (t', id)) : CatalogueOk t'.catalogue := by
  obtain ⟨hrate, hid, hc⟩ := defineWithRule_eq_some h
  have hids : ∀ row ∈ t.catalogue.definitions, row.costDefinitionId ≠ ((storedShape shape).row id).costDefinitionId :=
    fun row hrow heq => hid (List.mem_map.mpr ⟨row, hrow, heq⟩)
  rw [hc]
  refine ⟨hok.registered.insert hids hnew, ?_, ?_, ?_, ?_⟩
  · simp only [List.map_append, List.map_cons, List.map_nil, row_costDefinitionId]
    exact hok.ruled.append_right _
  · intro row hrow
    rcases List.mem_append.mp hrow with hrow | hrow
    · exact hok.scaled row hrow
    · rw [List.mem_singleton.mp hrow, shapeOf_row, storedShape_storedShape]
  · intro _ row hrow
    rcases List.mem_append.mp hrow with hrow | hrow
    · exact hok.rates hensured row hrow
    · rw [List.mem_singleton.mp hrow]
      exact hrate
  · intro hno
    rw [hensured] at hno
    cases hno

theorem extends_append {c : Catalogue} {new : List CostDefinitionRow} (hnew : ∀ row ∈ new, Known (shapeOf row))
    (rules : List CostAllocationRuleRow) :
    Extends c { c with definitions := c.definitions ++ new, rules := c.rules ++ rules } :=
  ⟨fun h => h, fun _ h => List.mem_append_left _ h, fun row h => (List.mem_append.mp h).imp_right (hnew row),
    fun rule h => ⟨rule, List.mem_append_left _ h, rfl, rfl, fun _ => rfl⟩⟩

theorem extends_defineWithRule {t t' : Transaction} {shape : CostShape} {method : AllocationMethod}
    {weightConfig : Option (Dict String ℚ)} {id : String} (hknown : Known (storedShape shape))
    (h : defineWithRule t shape method weightConfig = some (t', id)) : Extends t.catalogue t'.catalogue := by
  rw [(defineWithRule_eq_some h).2.2]
  refine extends_append (fun row hrow => ?_) _
  rw [List.mem_singleton.mp hrow]
  exact hknown

/-! ## The schema and the weights -/

theorem backfillRate_id (row : CostDefinitionRow) : (backfillRate row).costDefinitionId = row.costDefinitionId := by
  unfold backfillRate
  split_ifs <;> rfl

theorem backfillRate_eq_self {row : CostDefinitionRow} (h : rateChecks (shapeOf row) = true) :
    backfillRate row = row := by
  unfold backfillRate
  rw [if_neg]
  rintro ⟨hpct, hnone⟩
  simp [rateChecks, shapeOf, hpct, hnone] at h

theorem ensureSchema_of_ensured {c c' : Catalogue} (hok : CatalogueOk c) (hensured : c.ensured = true)
    (h : ensureSchema c = some c') : c' = c := by
  have hsame : c.definitions.map backfillRate = c.definitions := by
    conv_rhs => rw [← List.map_id c.definitions]
    exact List.map_congr_left fun row hrow => backfillRate_eq_self (hok.rates hensured row hrow)
  unfold ensureSchema at h
  simp only [hsame] at h
  split_ifs at h
  rw [← Option.some.inj h, ← hensured]

/-- Shapes that differ before the rates are filled in differ after. -/
theorem shapeOf_backfillRate {row row' : CostDefinitionRow} (hrate : row.rate = none) (hrate' : row'.rate = none)
    (h : shapeOf (backfillRate row) = shapeOf (backfillRate row')) : shapeOf row = shapeOf row' := by
  have hfields : ∀ r : CostDefinitionRow, r.rate = none → { shapeOf (backfillRate r) with rate := none } = shapeOf r := by
    intro r hr
    unfold backfillRate
    split_ifs <;> simp [shapeOf, hr]
  rw [← hfields row hrate, ← hfields row' hrate', h]

theorem CatalogueOk.ensureSchema {c c' : Catalogue} (hok : CatalogueOk c) (h : MockPmApp.ensureSchema c = some c') :
    CatalogueOk c' := by
  cases hensured : c.ensured with
  | true =>
    rw [ensureSchema_of_ensured hok hensured h]
    exact hok
  | false =>
    have hunrated := hok.unrated hensured
    unfold MockPmApp.ensureSchema at h
    dsimp only at h
    split_ifs at h with hchecks
    rw [← Option.some.inj h]
    refine ⟨?_, ?_, ?_, ?_, ?_⟩
    · refine hok.registered.map (fun row _ => backfillRate_id row) fun row hrow row' hrow' heq => ?_
      exact shapeOf_backfillRate (hunrated row hrow) (hunrated row' hrow') heq
    · have hids : (c.definitions.map backfillRate).map (·.costDefinitionId) = c.definitions.map (·.costDefinitionId) := by
        rw [List.map_map]
        exact List.map_congr_left fun row _ => backfillRate_id row
      rw [hids]
      exact hok.ruled
    · intro row hrow
      obtain ⟨r, hr, rfl⟩ := List.mem_map.mp hrow
      have hstored : toNumeric 4 (15 / 100) = 15 / 100 := by
        have := toNumeric_self 4 1500
        norm_num at this
        norm_num
        exact this
      have hnone := hunrated r hr
      unfold backfillRate
      split_ifs <;> simp [storedShape, shapeOf, hnone, hstored]
    · exact fun _ => List.all_eq_true.mp hchecks
    · intro hno
      cases hno

theorem extends_ensureSchema {c c' : Catalogue} (hok : CatalogueOk c) (hensured : c.ensured = true)
    (h : ensureSchema c = some c') : Extends c c' := by
  rw [ensureSchema_of_ensured hok hensured h]
  exact Extends.refl c

theorem rules_ensureWeighted (c : Catalogue) (id : String) (apartments : List String) :
    (ensureWeightedAllocationConfig c id apartments).rules.map (·.costDefinitionId) =
      c.rules.map (·.costDefinitionId) := by
  unfold ensureWeightedAllocationConfig
  rw [List.map_map]
  refine List.map_congr_left fun rule _ => ?_
  show (if _ then _ else _ : CostAllocationRuleRow).costDefinitionId = rule.costDefinitionId
  split_ifs <;> rfl

theorem CatalogueOk.ensureWeighted {c : Catalogue} (hok : CatalogueOk c) (id : String) (apartments : List String) :
    CatalogueOk (ensureWeightedAllocationConfig c id apartments) :=
  ⟨hok.registered, by rw [rules_ensureWeighted]; exact hok.ruled, hok.scaled, hok.rates, hok.unrated⟩

theorem extends_ensureWeighted (c : Catalogue) (id : String) (apartments : List String) :
    Extends c (ensureWeightedAllocationConfig c id apartments) := by
  refine ⟨fun h => h, fun _ h => h, fun _ h => .inl h,
    fun rule hrule => ⟨_, List.mem_map.mpr ⟨rule, hrule, rfl⟩, ?_, ?_, fun hset => ?_⟩⟩
  · split_ifs <;> rfl
  · split_ifs <;> rfl
  · rw [if_neg fun h => hset h.2]

/-! ## Resolving specs -/

theorem storedShape_spec : ∀ spec ∈ costDefinitionSpecs, storedShape spec.toCostShape = spec.toCostShape := by
  decide +kernel

theorem spec_concepts_nodup : (costDefinitionSpecs.map fun spec => spec.concept).Nodup := by decide +kernel

section

variable {fetch : Fetch CostDefinitionRow}

theorem resolveSpec_ok {t t' : Transaction} {spec : CostDefinitionSpec} {id : String}
    (hspec : spec ∈ costDefinitionSpecs) (hok : CatalogueOk t.catalogue) (hensured : t.catalogue.ensured = true)
    (h : resolveSpec fetch t spec = some (t', id)) :
    CatalogueOk t'.catalogue ∧ Extends t.catalogue t'.catalogue ∧
      ∃ row ∈ t'.catalogue.definitions, shapeOf row = spec.toCostShape ∧ row.costDefinitionId = id := by
  have hstored := storedShape_spec spec hspec
  unfold resolveSpec at h
  cases hone : fetch.one (t.catalogue.definitions.filter fun row => shapeOf row == spec.toCostShape) with
  | some row =>
    rw [hone] at h
    obtain ⟨rfl, rfl⟩ := Prod.mk.inj (Option.some.inj h)
    obtain ⟨hrow, hshape⟩ := Fetch.one_filter hone
    exact ⟨hok, Extends.refl _, row, hrow, by simpa using hshape, rfl⟩
  | none =>
    rw [hone] at h
    have hnew : ∀ row ∈ t.catalogue.definitions, shapeOf row ≠ storedShape spec.toCostShape := by
      intro row hrow
      have := Fetch.one_filter_eq_none hone row hrow
      rw [hstored]
      simpa using this
    refine ⟨hok.defineWithRule hensured hnew h, extends_defineWithRule (by rw [hstored]; exact .spec hspec) h,
      (storedShape spec.toCostShape).row id, ?_, ?_, rfl⟩
    · rw [(defineWithRule_eq_some h).2.2]
      exact List.mem_append_right _ (List.mem_singleton_self _)
    · rw [shapeOf_row, hstored]

/-- The map holds, for each spec and for nothing else, the id of the definition of its shape. -/
structure Resolved (c : Catalogue) (specs : List CostDefinitionSpec) (conceptToId : Dict Concept String) : Prop where
  found : ∀ spec ∈ specs, ∃ row ∈ c.definitions, shapeOf row = spec.toCostShape ∧
    conceptToId.get? spec.concept = some row.costDefinitionId
  only : ∀ concept id, conceptToId.get? concept = some id → ∃ spec ∈ specs, spec.concept = concept

theorem Resolved.mono {c c' : Catalogue} {specs : List CostDefinitionSpec} {conceptToId : Dict Concept String}
    (h : Resolved c specs conceptToId) (hext : Extends c c') : Resolved c' specs conceptToId := by
  refine ⟨fun spec hspec => ?_, h.only⟩
  obtain ⟨row, hrow, hfound⟩ := h.found spec hspec
  exact ⟨row, hext.definitions row hrow, hfound⟩

/-- Two maps of one catalogue agree. -/
theorem Resolved.unique {c : Catalogue} {specs : List CostDefinitionSpec} {m m' : Dict Concept String}
    (hok : CatalogueOk c) (h : Resolved c specs m) (h' : Resolved c specs m') (concept : Concept) :
    m.get? concept = m'.get? concept := by
  have hone : ∀ {m m' : Dict Concept String}, Resolved c specs m → Resolved c specs m' → ∀ id,
      m.get? concept = some id → m'.get? concept = some id := by
    intro m m' h h' id hid
    obtain ⟨spec, hspec, rfl⟩ := h.only concept id hid
    obtain ⟨row, hrow, hshape, hget⟩ := h.found spec hspec
    obtain ⟨row', hrow', hshape', hget'⟩ := h'.found spec hspec
    rw [hget', ← shapeOf_of_id hok hrow hrow' (hshape.trans hshape'.symm), ← hget, hid]
  cases hm : m.get? concept with
  | some id => exact (hone h h' id hm).symm
  | none =>
    cases hm' : m'.get? concept with
    | none => rfl
    | some id =>
      have := hone h' h id hm'
      rw [hm] at this
      cases this

/-- Different concepts have different ids. -/
theorem Resolved.injective {c : Catalogue} {specs : List CostDefinitionSpec} {m : Dict Concept String}
    (hok : CatalogueOk c) (h : Resolved c specs m) {concept concept' : Concept} {id : String}
    (hid : m.get? concept = some id) (hid' : m.get? concept' = some id) : concept = concept' := by
  obtain ⟨spec, hspec, rfl⟩ := h.only concept id hid
  obtain ⟨spec', hspec', rfl⟩ := h.only concept' id hid'
  obtain ⟨row, hrow, hshape, hget⟩ := h.found spec hspec
  obtain ⟨row', hrow', hshape', hget'⟩ := h.found spec' hspec'
  have hsame : row = row' := by
    refine hok.registered.eq_of_id hrow hrow' ?_
    rw [hid] at hget
    rw [hid'] at hget'
    exact (Option.some.inj hget).symm.trans (Option.some.inj hget')
  subst hsame
  exact congrArg (·.concept) (hshape.symm.trans hshape')

theorem resolveSpecs_ok {specs : List CostDefinitionSpec} : ∀ (done : List CostDefinitionSpec) {t t' : Transaction}
    {m m' : Dict Concept String}, (∀ spec ∈ specs, spec ∈ costDefinitionSpecs) →
    ((done ++ specs).map fun spec => spec.concept).Nodup → CatalogueOk t.catalogue → t.catalogue.ensured = true →
    Resolved t.catalogue done m → resolveSpecs fetch t m specs = some (t', m') →
    CatalogueOk t'.catalogue ∧ Extends t.catalogue t'.catalogue ∧ Resolved t'.catalogue (done ++ specs) m' := by
  induction specs with
  | nil =>
    intro done t t' m m' _ _ hok _ hres h
    obtain ⟨rfl, rfl⟩ := Prod.mk.inj (Option.some.inj h)
    rw [List.append_nil]
    exact ⟨hok, Extends.refl _, hres⟩
  | cons spec specs ih =>
    intro done t t' m m' hspecs hnodup hok hensured hres h
    unfold resolveSpecs at h
    obtain ⟨⟨t₁, id⟩, hspec, hrest⟩ := Option.bind_eq_some_iff.mp h
    obtain ⟨hok₁, hext₁, row, hrow, hshape, hid⟩ :=
      resolveSpec_ok (hspecs spec (List.mem_cons_self ..)) hok hensured hspec
    have hother : ∀ s ∈ done, s.concept ≠ spec.concept := by
      intro s hs heq
      rw [List.map_append, List.map_cons, List.nodup_append] at hnodup
      exact hnodup.2.2 _ (List.mem_map.mpr ⟨s, hs, rfl⟩) _ (List.mem_cons_self ..) heq
    have hres₁ : Resolved t₁.catalogue (done ++ [spec]) (m.put spec.concept id) := by
      constructor
      · intro s hs
        rcases List.mem_append.mp hs with hs | hs
        · obtain ⟨r, hr, hrshape, hget⟩ := hres.found s hs
          exact ⟨r, hext₁.definitions r hr, hrshape, by rw [Dict.get?_put_ne m (hother s hs), hget]⟩
        · rw [List.mem_singleton.mp hs]
          exact ⟨row, hrow, hshape, by rw [Dict.get?_put_self, hid]⟩
      · intro concept id' hget
        by_cases hconcept : concept = spec.concept
        · exact ⟨spec, List.mem_append_right _ (List.mem_singleton_self _), hconcept.symm⟩
        · rw [Dict.get?_put_ne m hconcept] at hget
          obtain ⟨s, hs, hsc⟩ := hres.only concept id' hget
          exact ⟨s, List.mem_append_left _ hs, hsc⟩
    have happend : done ++ spec :: specs = (done ++ [spec]) ++ specs := by simp
    rw [happend] at hnodup ⊢
    obtain ⟨hok', hext', hres'⟩ := ih (done ++ [spec]) (fun s hs => hspecs s (List.mem_cons_of_mem _ hs)) hnodup hok₁
      (hext₁.ensured hensured) hres₁ hrest
    exact ⟨hok', hext₁.trans hext', hres'⟩

theorem resolveCostDefinitionIds_ok {t t' : Transaction} {m : Dict Concept String} (hok : CatalogueOk t.catalogue)
    (hensured : t.catalogue.ensured = true) (h : resolveCostDefinitionIds fetch t = some (t', m)) :
    CatalogueOk t'.catalogue ∧ Extends t.catalogue t'.catalogue ∧ Resolved t'.catalogue costDefinitionSpecs m :=
  resolveSpecs_ok [] (fun _ hspec => hspec) spec_concepts_nodup hok hensured
    ⟨fun _ hspec => (nomatch hspec), fun _ _ hget => by rw [Dict.get?_empty] at hget; cases hget⟩ h

theorem isCommission_shape {base : RevenueBase} {rate : ℚ} {row : CostDefinitionRow}
    (h : shapeOf row = commissionShape base rate) : isCommission base rate row = true := by
  injection h with hconcept _ _ _ _ _ hbase hrate
  simp [isCommission, hconcept, hbase, hrate]

theorem storedShape_commission {base : RevenueBase} {rate : ℚ} (h : toNumeric 4 rate = rate) :
    storedShape (commissionShape base rate) = commissionShape base rate := by
  simp [storedShape, commissionShape, h]

theorem resolveCommission_ok {t t' : Transaction} {base : RevenueBase} {rate : ℚ} {id : String} {inserted : Bool}
    (hscale : toNumeric 4 rate = rate) (hok : CatalogueOk t.catalogue) (hensured : t.catalogue.ensured = true)
    (h : resolveOwnerCommissionCostDefinitionId fetch t base rate = some (t', id, inserted)) :
    CatalogueOk t'.catalogue ∧ Extends t.catalogue t'.catalogue ∧
      ∃ row ∈ t'.catalogue.definitions, isCommission base rate row = true ∧ row.costDefinitionId = id := by
  unfold resolveOwnerCommissionCostDefinitionId at h
  cases hone : fetch.one (t.catalogue.definitions.filter (isCommission base rate)) with
  | some row =>
    simp only [hone, Option.some.injEq, Prod.mk.injEq] at h
    obtain ⟨rfl, rfl, -⟩ := h
    obtain ⟨hrow, hfound⟩ := Fetch.one_filter hone
    exact ⟨hok, Extends.refl _, row, hrow, hfound, rfl⟩
  | none =>
    simp only [hone, Option.map_eq_some_iff, Prod.mk.injEq] at h
    obtain ⟨⟨t₁, id₁⟩, hdefine, rfl, rfl, -⟩ := h
    have hnew : ∀ row ∈ t.catalogue.definitions, shapeOf row ≠ storedShape (commissionShape base rate) := by
      intro row hrow hshape
      rw [storedShape_commission hscale] at hshape
      have := Fetch.one_filter_eq_none hone row hrow
      rw [isCommission_shape hshape] at this
      cases this
    have hknown : Known (storedShape (commissionShape base rate)) := by
      rw [storedShape_commission hscale]
      exact .commission base rate
    refine ⟨hok.defineWithRule hensured hnew hdefine, extends_defineWithRule hknown hdefine,
      (storedShape (commissionShape base rate)).row id₁, ?_, ?_, rfl⟩
    · rw [(defineWithRule_eq_some hdefine).2.2]
      exact List.mem_append_right _ (List.mem_singleton_self _)
    · exact isCommission_shape (by rw [shapeOf_row, storedShape_commission hscale])

/-! ## Backfills -/

theorem defineAll_ok {shapes : List CostShape} : ∀ {t t' : Transaction},
    Registered (·.costDefinitionId) shapeOf t.catalogue.definitions → (shapes.map storedShape).Nodup →
    (∀ shape ∈ shapes, ∀ row ∈ t.catalogue.definitions, shapeOf row ≠ storedShape shape) →
    defineAll t shapes = some t' → ∃ new : List CostDefinitionRow,
      t'.catalogue = { t.catalogue with definitions := t.catalogue.definitions ++ new } ∧
      new.map shapeOf = shapes.map storedShape ∧ (∀ row ∈ new, rateChecks (shapeOf row) = true) ∧
      Registered (·.costDefinitionId) shapeOf (t.catalogue.definitions ++ new) := by
  induction shapes with
  | nil =>
    intro t t' hreg _ _ h
    refine ⟨[], ?_, rfl, fun _ h => (nomatch h), ?_⟩
    · rw [← Option.some.inj h, List.append_nil]
    · rw [List.append_nil]
      exact hreg
  | cons shape shapes ih =>
    intro t t' hreg hnodup hnew h
    unfold defineAll at h
    obtain ⟨⟨t₁, id⟩, hdefine, hrest⟩ := Option.bind_eq_some_iff.mp h
    obtain ⟨-, hrate, hid, hc⟩ := define_eq_some.mp hdefine
    rw [List.map_cons, List.nodup_cons] at hnodup
    have hreg₁ : Registered (·.costDefinitionId) shapeOf t₁.catalogue.definitions := by
      rw [hc]
      exact hreg.insert (fun row hrow heq => hid (List.mem_map.mpr ⟨row, hrow, heq⟩))
        (hnew shape (List.mem_cons_self ..))
    have hnew₁ : ∀ s ∈ shapes, ∀ row ∈ t₁.catalogue.definitions, shapeOf row ≠ storedShape s := by
      intro s hs row hrow
      rw [hc] at hrow
      rcases List.mem_append.mp hrow with hrow | hrow
      · exact hnew s (List.mem_cons_of_mem _ hs) row hrow
      · rw [List.mem_singleton.mp hrow, shapeOf_row]
        exact fun heq => hnodup.1 (heq ▸ List.mem_map.mpr ⟨s, hs, rfl⟩)
    obtain ⟨new, hc', hshapes, hrates, hreg'⟩ := ih hreg₁ hnodup.2 hnew₁ hrest
    have happend : t₁.catalogue.definitions ++ new =
        t.catalogue.definitions ++ (storedShape shape).row id :: new := by
      rw [hc]
      simp
    rw [happend] at hreg'
    refine ⟨(storedShape shape).row id :: new, ?_, ?_, ?_, hreg'⟩
    · rw [hc', happend, hc]
    · rw [List.map_cons, List.map_cons, hshapes, shapeOf_row]
    · intro row hrow
      rcases List.mem_cons.mp hrow with rfl | hrow
      · exact hrate
      · exact hrates row hrow

/-- Where every definition has its rule but the new ones, which are all of the kind, the missing rules are theirs. -/
theorem ruled_insertMissingRules {c : Catalogue} {new : List CostDefinitionRow} {p : CostDefinitionRow → Bool}
    {method : CostDefinitionRow → AllocationMethod}
    (hruled : (c.rules.map (·.costDefinitionId)).Perm (c.definitions.map (·.costDefinitionId)))
    (hids : ((c.definitions ++ new).map (·.costDefinitionId)).Nodup) (hp : ∀ row ∈ new, p row = true) :
    ((insertMissingRules { c with definitions := c.definitions ++ new } p method).rules.map
      (·.costDefinitionId)).Perm ((c.definitions ++ new).map (·.costDefinitionId)) := by
  have hold : (c.definitions.filter fun row => p row &&
      !(c.rules.map (·.costDefinitionId)).contains row.costDefinitionId) = [] := by
    refine List.filter_eq_nil_iff.mpr fun row hrow => ?_
    have := hruled.mem_iff.mpr (List.mem_map.mpr ⟨row, hrow, rfl⟩)
    simp [this]
  have hnew : (new.filter fun row => p row &&
      !(c.rules.map (·.costDefinitionId)).contains row.costDefinitionId) = new := by
    refine List.filter_eq_self.mpr fun row hrow => ?_
    have hnotin : row.costDefinitionId ∉ c.rules.map (·.costDefinitionId) := by
      intro hmem
      rw [List.map_append, List.nodup_append] at hids
      exact hids.2.2 _ (hruled.mem_iff.mp hmem) _ (List.mem_map.mpr ⟨row, hrow, rfl⟩) rfl
    simp [hp row hrow, hnotin]
  unfold insertMissingRules
  simp only [List.filter_append, hold, hnew, List.nil_append, List.map_append, List.map_map]
  exact hruled.append_right _

theorem assignAll_ok {α β : Type} {definitions : List CostDefinitionRow} {matching : α → CostDefinitionRow → Bool}
    {assign : α → String → β} {rows : List α} {assigned : List β}
    (h : assignAll fetch definitions matching assign rows = some assigned) :
    List.Forall₂ (fun row out => ∃ d ∈ definitions, matching row d = true ∧ out = assign row d.costDefinitionId) rows
      assigned := by
  induction rows generalizing assigned with
  | nil =>
    obtain rfl := Option.some.inj h
    exact .nil
  | cons row rows ih =>
    unfold assignAll at h
    rw [List.mapM_cons] at h
    obtain ⟨out, hout, h⟩ := Option.bind_eq_some_iff.mp h
    obtain ⟨outs, houts, h⟩ := Option.bind_eq_some_iff.mp h
    obtain rfl := Option.some.inj h
    obtain ⟨d, hd, rfl⟩ := Option.map_eq_some_iff.mp hout
    obtain ⟨hmem, hmatch⟩ := Fetch.one_filter hd
    exact .cons ⟨d, hmem, hmatch, rfl⟩ (ih houts)

section

variable {α β : Type} {matching : α → CostDefinitionRow → Bool} {shape : α → CostShape} {kind : CostDefinitionRow → Bool}
  {method : CostDefinitionRow → AllocationMethod} {assign : α → String → β} {t t' : Transaction} {rows : List α}
  {assigned : List β}

/-- A migration whose new definitions match the rows they are for and are all of the kind that gets its rules. -/
structure Matching (matching : α → CostDefinitionRow → Bool) (shape : α → CostShape) (kind : CostDefinitionRow → Bool) :
    Prop where
  stored : ∀ row, storedShape (shape row) = shape row
  known : ∀ row, Known (shape row)
  own : ∀ {row d}, shapeOf d = shape row → matching row d = true
  kind : ∀ {row d}, shapeOf d = shape row → kind d = true

theorem Matching.shapes (hm : Matching matching shape kind) (missing : List α) :
    ((missing.map shape).dedup.map storedShape) = (missing.map shape).dedup := by
  conv_rhs => rw [← List.map_id (missing.map shape).dedup]
  refine List.map_congr_left fun s hs => ?_
  obtain ⟨row, -, rfl⟩ := List.mem_map.mp (List.mem_dedup.mp hs)
  exact hm.stored row

theorem Matching.missing_new (hm : Matching matching shape kind) (definitions : List CostDefinitionRow) :
    ∀ s ∈ ((rows.filter fun row => !definitions.any (matching row)).map shape).dedup, ∀ d ∈ definitions,
      shapeOf d ≠ storedShape s := by
  intro s hs d hd heq
  obtain ⟨row, hrow, rfl⟩ := List.mem_map.mp (List.mem_dedup.mp hs)
  have hno := (List.mem_filter.mp hrow).2
  rw [hm.stored] at heq
  have hany : definitions.any (matching row) = true := List.any_eq_true.mpr ⟨d, hd, hm.own heq⟩
  rw [hany] at hno
  cases hno

theorem backfill_ok (hm : Matching matching shape kind) (hok : CatalogueOk t.catalogue)
    (hensured : t.catalogue.ensured = true)
    (h : backfill fetch matching shape kind method assign t rows = some (t', assigned)) :
    CatalogueOk t'.catalogue ∧ Extends t.catalogue t'.catalogue ∧
      List.Forall₂ (fun row out => ∃ d ∈ t'.catalogue.definitions, matching row d = true ∧
        out = assign row d.costDefinitionId) rows assigned := by
  unfold backfill at h
  obtain ⟨t₁, hdefine, h⟩ := Option.bind_eq_some_iff.mp h
  obtain ⟨out, hassign, h⟩ := Option.bind_eq_some_iff.mp h
  obtain ⟨rfl, rfl⟩ := Prod.mk.inj (Option.some.inj h)
  obtain ⟨new, hc, hshapes, hrates, hreg⟩ := defineAll_ok hok.registered
    (by rw [hm.shapes]; exact List.nodup_dedup _) (hm.missing_new t.catalogue.definitions) hdefine
  rw [hm.shapes] at hshapes
  have hmade : ∀ row ∈ new, ∃ a : α, shapeOf row = shape a := by
    intro row hrow
    have hin : shapeOf row ∈ new.map shapeOf := List.mem_map.mpr ⟨row, hrow, rfl⟩
    rw [hshapes] at hin
    obtain ⟨a, -, ha⟩ := List.mem_map.mp (List.mem_dedup.mp hin)
    exact ⟨a, ha.symm⟩
  have hkind : ∀ row ∈ new, kind row = true := by
    intro row hrow
    obtain ⟨a, ha⟩ := hmade row hrow
    exact hm.kind ha
  refine ⟨⟨?_, ?_, ?_, ?_, ?_⟩, ?_, assignAll_ok hassign⟩
  · show Registered _ _ t₁.catalogue.definitions
    rw [hc]
    exact hreg
  · show (_ : List String).Perm (t₁.catalogue.definitions.map _)
    rw [hc]
    exact ruled_insertMissingRules hok.ruled hreg.ids hkind
  · intro row hrow
    change row ∈ t₁.catalogue.definitions at hrow
    rw [hc] at hrow
    rcases List.mem_append.mp hrow with hrow | hrow
    · exact hok.scaled row hrow
    · obtain ⟨a, ha⟩ := hmade row hrow
      rw [ha, hm.stored]
  · intro _ row hrow
    change row ∈ t₁.catalogue.definitions at hrow
    rw [hc] at hrow
    rcases List.mem_append.mp hrow with hrow | hrow
    · exact hok.rates hensured row hrow
    · exact hrates row hrow
  · intro hno
    change t₁.catalogue.ensured = false at hno
    rw [hc, hensured] at hno
    cases hno
  · rw [hc]
    refine extends_append (fun row hrow => ?_) _
    obtain ⟨a, ha⟩ := hmade row hrow
    rw [ha]
    exact hm.known a

end

/-! ## Backfills go through -/

/-- Ids that no definition has, none of them twice. -/
structure Fresh (c : Catalogue) (uuids : List String) : Prop where
  nodup : uuids.Nodup
  unused : ∀ id ∈ uuids, id ∉ c.definitions.map (·.costDefinitionId)

theorem defineAll_isSome {shapes : List CostShape} (hrates : ∀ shape ∈ shapes, rateChecks (storedShape shape) = true) :
    ∀ {t : Transaction}, Fresh t.catalogue t.uuids → shapes.length ≤ t.uuids.length →
      ∃ t', defineAll t shapes = some t' := by
  induction shapes with
  | nil => exact fun {t} _ _ => ⟨t, rfl⟩
  | cons shape shapes ih =>
    intro t hfresh hlength
    obtain ⟨c, uuids⟩ := t
    cases uuids with
    | nil => cases hlength
    | cons id uuids =>
      have hnodup := List.nodup_cons.mp hfresh.nodup
      have hdefine : define ⟨c, id :: uuids⟩ shape =
          some (⟨{ c with definitions := c.definitions ++ [(storedShape shape).row id] }, uuids⟩, id) :=
        define_eq_some.mpr ⟨rfl, hrates shape (List.mem_cons_self ..), hfresh.unused id (List.mem_cons_self ..), rfl⟩
      have hfresh' : Fresh { c with definitions := c.definitions ++ [(storedShape shape).row id] } uuids := by
        refine ⟨hnodup.2, fun id' hid' hmem => ?_⟩
        rw [List.map_append, List.mem_append] at hmem
        rcases hmem with hmem | hmem
        · exact hfresh.unused id' (List.mem_cons_of_mem _ hid') hmem
        · rw [List.map_singleton, List.mem_singleton, row_costDefinitionId] at hmem
          exact hnodup.1 (hmem ▸ hid')
      have hlength' : shapes.length ≤ uuids.length := Nat.le_of_succ_le_succ hlength
      obtain ⟨t', h⟩ := @ih (fun s hs => hrates s (List.mem_cons_of_mem _ hs)) ⟨_, uuids⟩ hfresh' hlength'
      refine ⟨t', ?_⟩
      rw [defineAll, hdefine]
      exact h

theorem assignAll_isSome (fetch : Fetch CostDefinitionRow) {α β : Type} {definitions : List CostDefinitionRow}
    {matching : α → CostDefinitionRow → Bool} (assign : α → String → β) {rows : List α}
    (h : ∀ row ∈ rows, ∃ d ∈ definitions, matching row d = true) :
    ∃ assigned, assignAll fetch definitions matching assign rows = some assigned := by
  induction rows with
  | nil => exact ⟨[], rfl⟩
  | cons row rows ih =>
    obtain ⟨assigned, hassigned⟩ := ih fun r hr => h r (List.mem_cons_of_mem _ hr)
    obtain ⟨d, hd, hmatch⟩ := h row (List.mem_cons_self ..)
    cases hone : fetch.one (definitions.filter (matching row)) with
    | none =>
      have hno := Fetch.one_filter_eq_none hone d hd
      rw [hmatch] at hno
      cases hno
    | some d' =>
      refine ⟨assign row d'.costDefinitionId :: assigned, ?_⟩
      unfold assignAll at hassigned ⊢
      rw [List.mapM_cons, hone, hassigned]
      rfl

/-- Given enough new ids a backfill meets every constraint, NOT NULL with the rest. -/
theorem backfill_isSome (fetch : Fetch CostDefinitionRow) {α β : Type} {matching : α → CostDefinitionRow → Bool}
    {shape : α → CostShape} {kind : CostDefinitionRow → Bool} (method : CostDefinitionRow → AllocationMethod)
    (assign : α → String → β) {t : Transaction} {rows : List α} (hm : Matching matching shape kind)
    (hok : CatalogueOk t.catalogue) (hrates : ∀ row, rateChecks (shape row) = true) (hfresh : Fresh t.catalogue t.uuids)
    (hlength : rows.length ≤ t.uuids.length) :
    ∃ r, backfill fetch matching shape kind method assign t rows = some r := by
  have hrates' : ∀ s ∈ ((rows.filter fun row => !t.catalogue.definitions.any (matching row)).map shape).dedup,
      rateChecks (storedShape s) = true := by
    intro s hs
    obtain ⟨row, -, rfl⟩ := List.mem_map.mp (List.mem_dedup.mp hs)
    rw [hm.stored]
    exact hrates row
  have hlength' : ((rows.filter fun row => !t.catalogue.definitions.any (matching row)).map shape).dedup.length ≤
      t.uuids.length := by
    refine (List.dedup_sublist _).length_le.trans ?_
    rw [List.length_map]
    exact (List.length_filter_le _ _).trans hlength
  obtain ⟨t', hdefine⟩ := defineAll_isSome hrates' hfresh hlength'
  obtain ⟨new, hc, hshapes, -, -⟩ := defineAll_ok hok.registered
    (by rw [hm.shapes]; exact List.nodup_dedup _) (hm.missing_new t.catalogue.definitions) hdefine
  rw [hm.shapes] at hshapes
  have hfound : ∀ row ∈ rows, ∃ d ∈ t'.catalogue.definitions, matching row d = true := by
    intro row hrow
    rw [hc]
    by_cases hany : t.catalogue.definitions.any (matching row) = true
    · obtain ⟨d, hd, hmatch⟩ := List.any_eq_true.mp hany
      exact ⟨d, List.mem_append_left _ hd, hmatch⟩
    · have hmissing : shape row ∈ new.map shapeOf := by
        rw [hshapes]
        refine List.mem_dedup.mpr (List.mem_map.mpr ⟨row, List.mem_filter.mpr ⟨hrow, ?_⟩, rfl⟩)
        simpa using hany
      obtain ⟨d, hd, heq⟩ := List.mem_map.mp hmissing
      exact ⟨d, List.mem_append_right _ hd, hm.own heq⟩
  obtain ⟨assigned, hassigned⟩ : ∃ assigned, assignAll fetch (insertMissingRules t'.catalogue kind method).definitions
      matching assign rows = some assigned :=
    assignAll_isSome fetch assign hfound
  refine ⟨({ t' with catalogue := insertMissingRules t'.catalogue kind method }, assigned), ?_⟩
  unfold backfill
  simp only [hdefine, Option.bind_eq_bind, Option.bind_some, hassigned]

theorem rateChecks_commission (o : OwnerContract) : rateChecks (commissionShape o.commissionBase o.commissionPct) = true := by
  simp [rateChecks, commissionShape, isPct, percentageCalculationBases, o.commissionPct_mem]

theorem rateChecks_legacy (cost : LegacyCost) : rateChecks (legacyShape cost) = true := rfl

theorem matching_commission : Matching (fun o : OwnerContract => isCommission o.commissionBase o.commissionPct)
    (fun o => commissionShape o.commissionBase o.commissionPct) (·.concept == .ownerCommission) where
  stored := fun o => storedShape_commission o.commissionPct_scale
  known := fun _ => .commission _ _
  own := isCommission_shape
  kind := fun h => by
    injection h with hconcept
    simp [hconcept]

theorem matching_legacy : Matching (fun l : LineRow LegacyCost => classifies l.cost) (fun l => legacyShape l.cost)
    (fun _ => true) where
  stored := fun _ => rfl
  known := fun l => .legacy l.cost
  own := fun h => by
    injection h with hconcept _ hbehavior _ _ hrecurrence
    simp [classifies, hconcept, hbehavior, hrecurrence]
  kind := fun _ => rfl

end

end PriceEngine.MockPmApp
