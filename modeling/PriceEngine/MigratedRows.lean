import PriceEngine.CatalogueRuns
import PriceEngine.Stages

/-!
# What the migrated rows mean to the job

An old owner contract said on what base and at what rate the owner is charged;
an old payment line said what its cost is. After the migrations the job reads
both from cost definitions that are delivered to it in any order, some of them
again. It finds what the old rows said, in whatever state the application has
brought its tables to since.
-/

namespace PriceEngine.MockPmApp

variable {fetch : Fetch CostDefinitionRow}

/-! ## Broadcast rows -/

def ownerContractOf : OwnerConfigRow → Option OwnerContractRow
  | .contract row => some row
  | .definition _ => none

def ownerDefinitionOf : OwnerConfigRow → Option CostDefinitionRow
  | .contract _ => none
  | .definition row => some row

def costDefinitionOf : CostConfigRow → Option CostDefinitionRow
  | .definition row => some row
  | .allocationRule _ => none

def allocationRuleOf : CostConfigRow → Option CostAllocationRuleRow
  | .definition _ => none
  | .allocationRule row => some row

theorem foldl_owner (L : List OwnerConfigRow) (a : OwnerContractEnrichment) :
    L.foldl OwnerContractEnrichment.processBroadcastElement a =
      ⟨(L.filterMap ownerContractOf).foldl (fun d row => d.put row.apartmentId row.toAssignment) a.ownerContracts,
        (L.filterMap ownerDefinitionOf).foldl (fun d row => d.put row.costDefinitionId row)
          a.costDefinitions⟩ := by
  induction L generalizing a with
  | nil => rfl
  | cons r L ih =>
    rw [List.foldl_cons, ih]
    cases r <;> rfl

theorem foldl_cost (L : List CostConfigRow) (a : CostDefinitionResolution) :
    L.foldl CostDefinitionResolution.processBroadcastElement a =
      ⟨(L.filterMap costDefinitionOf).foldl (fun d row => d.put row.costDefinitionId row) a.definitions,
        (L.filterMap allocationRuleOf).foldl (fun d row => d.put row.costDefinitionId row)
          a.allocations⟩ := by
  induction L generalizing a with
  | nil => rfl
  | cons r L ih =>
    rw [List.foldl_cons, ih]
    cases r <;> rfl

theorem mem_filterMap_iff {α β : Type} {f : α → Option β} {g : β → α} (hf : ∀ a b, f a = some b ↔ a = g b)
    {L : List α} {b : β} : b ∈ L.filterMap f ↔ g b ∈ L := by
  rw [List.mem_filterMap]
  constructor
  · rintro ⟨a, ha, hab⟩
    rw [← (hf a b).mp hab]
    exact ha
  · exact fun h => ⟨g b, h, (hf _ _).mpr rfl⟩

theorem mem_contracts {L : List OwnerConfigRow} {row : OwnerContractRow} :
    row ∈ L.filterMap ownerContractOf ↔ .contract row ∈ L :=
  mem_filterMap_iff (g := OwnerConfigRow.contract) fun r _ => by cases r <;> simp [ownerContractOf]

theorem mem_ownerDefinitions {L : List OwnerConfigRow} {row : CostDefinitionRow} :
    row ∈ L.filterMap ownerDefinitionOf ↔ .definition row ∈ L :=
  mem_filterMap_iff (g := OwnerConfigRow.definition) fun r _ => by cases r <;> simp [ownerDefinitionOf]

theorem mem_costDefinitions {L : List CostConfigRow} {row : CostDefinitionRow} :
    row ∈ L.filterMap costDefinitionOf ↔ .definition row ∈ L :=
  mem_filterMap_iff (g := CostConfigRow.definition) fun r _ => by cases r <;> simp [costDefinitionOf]

theorem mem_allocationRules {L : List CostConfigRow} {row : CostAllocationRuleRow} :
    row ∈ L.filterMap allocationRuleOf ↔ .allocationRule row ∈ L :=
  mem_filterMap_iff (g := CostConfigRow.allocationRule) fun r _ => by cases r <;> simp [allocationRuleOf]

/-! ## Owner contracts -/

/-- The rows of the two tables, each at least once, in any order. -/
structure OwnerRowsDelivered (c : Catalogue) (rows : List OwnerContractRow) (L : List OwnerConfigRow) : Prop where
  contract : ∀ row, .contract row ∈ L ↔ row ∈ rows
  definition : ∀ row, .definition row ∈ L ↔ row ∈ c.definitions

theorem processElement_delivered {c : Catalogue} {rows : List OwnerContractRow} {L : List OwnerConfigRow}
    (hL : OwnerRowsDelivered c rows L) (hok : CatalogueOk c) (hkeys : (rows.map (·.apartmentId)).Nodup)
    {row : OwnerContractRow} (hrow : row ∈ rows) {d : CostDefinitionRow} (hd : d ∈ c.definitions)
    (hid : d.costDefinitionId = row.costDefinitionId) {value : CostAggregate} (hvalue : value.apartmentId = row.apartmentId) :
    (L.foldl OwnerContractEnrichment.processBroadcastElement {}).processElement value =
      [{ value with commissionBase := d.revenueBase.getD .totalRevenue, commissionPct := d.rate.getD 0 }] := by
  have hcontract : ((L.filterMap ownerContractOf).foldl
      (fun d row => d.put row.apartmentId row.toAssignment) Dict.empty).get? row.apartmentId = some row.toAssignment := by
    refine Dict.get?_foldl_put_of_forall (·.apartmentId) OwnerContractRow.toAssignment
      (mem_contracts.mpr ((hL.contract row).mpr hrow)) fun row' hrow' hkey => ?_
    rw [eq_of_map_nodup hkeys ((hL.contract row').mp (mem_contracts.mp hrow')) hrow hkey]
  have hdefinition : ((L.filterMap ownerDefinitionOf).foldl
      (fun d row => d.put row.costDefinitionId row) Dict.empty).get? d.costDefinitionId = some d := by
    refine Dict.get?_foldl_put_of_forall (·.costDefinitionId) id
      (mem_ownerDefinitions.mpr ((hL.definition d).mpr hd)) fun d' hd' hkey => ?_
    exact hok.registered.eq_of_id ((hL.definition d').mp (mem_ownerDefinitions.mp hd')) hd hkey
  unfold OwnerContractEnrichment.processElement
  rw [foldl_owner, hvalue, hcontract]
  simp only [Option.bind_some, OwnerContractRow.toAssignment]
  rw [← hid, hdefinition]

/-- Until the migration the old contracts are there; from then on each row has the terms of its contract. -/
def TermsKept (contracts : List OwnerContract) (s : PmApp) : Prop :=
  s.db.contracts = .legacy contracts ∨ s.db.catalogue.ensured = true ∧ ∃ rows, s.db.contracts = .current rows ∧
    (contracts ≠ [] → List.Forall₂ (HasTerms s.db.catalogue) contracts rows)

theorem HasTerms.mono {c c' : Catalogue} {o : OwnerContract} {row : OwnerContractRow} (h : HasTerms c o row)
    (hext : Extends c c') : HasTerms c' o row := by
  obtain ⟨d, hd, hrest⟩ := h
  exact ⟨d, hext.definitions d hd, hrest⟩

theorem apartments_hasTerms {c : Catalogue} {contracts : List OwnerContract} {rows : List OwnerContractRow}
    (h : List.Forall₂ (HasTerms c) contracts rows) : rows.map (·.apartmentId) = contracts.map (·.apartmentId) := by
  induction h with
  | nil => rfl
  | cons hrow _ ih =>
    obtain ⟨d, -, -, rfl⟩ := hrow
    rw [List.map_cons, List.map_cons, ih]

theorem TermsKept.step {contracts : List OwnerContract} {s s' : PmApp} {maps : List (Dict Concept String)}
    (h : TermsKept contracts s) (he : Effect s s' maps) : TermsKept contracts s' := by
  have hstep := he.contracts
  rcases h with hlegacy | ⟨hensured, rows, hrows, hterms⟩
  · rw [hlegacy] at hstep
    unfold TermsKept
    generalize hnext : s'.db.contracts = next at hstep ⊢
    cases hstep with
    | same => exact .inl rfl
    | migrated hensured hassigned => exact .inr ⟨hensured, _, rfl, fun _ => hassigned⟩
  · rw [hrows] at hstep
    have hext := he.kept hensured
    unfold TermsKept
    generalize hnext : s'.db.contracts = next at hstep ⊢
    cases hstep with
    | same =>
      exact .inr ⟨hext.ensured hensured, rows, rfl, fun hne => (hterms hne).imp fun _ _ hrow => hrow.mono hext⟩
    | seeded hensured' _ =>
      refine .inr ⟨hensured', _, rfl, fun hne => ?_⟩
      exact absurd (List.forall₂_nil_right_iff.mp (hterms hne)) hne

variable {s : PmApp} {es : List PmEvent} {maps : List (Dict Concept String)}

/-- Whatever definition the migration chose for an old contract, and whatever has happened to the tables since, the
job charges the owner on the base and at the rate of the old contract. -/
theorem migrated_terms_charged {db : PmDb} (hdb : CatalogueOk db.catalogue) {contracts : List OwnerContract}
    (hlegacy : db.contracts = .legacy contracts) (hkeys : (contracts.map (·.apartmentId)).Nodup)
    (h : run (pmStep fetch) ⟨db, none⟩ es = .ok (s, maps)) {rows : List OwnerContractRow}
    (hrows : s.db.contracts = .current rows) {L : List OwnerConfigRow}
    (hL : OwnerRowsDelivered s.db.catalogue rows L) {o : OwnerContract} (ho : o ∈ contracts) {value : CostAggregate}
    (hvalue : value.apartmentId = o.apartmentId) :
    (L.foldl OwnerContractEnrichment.processBroadcastElement {}).processElement value =
      [{ value with commissionBase := o.commissionBase, commissionPct := o.commissionPct }] := by
  have hok := (run_effect (appOk_start hdb) h).1
  rcases run_kept (I := TermsKept contracts) (fun _ => TermsKept.step) (appOk_start hdb) (.inl hlegacy) h with
    hstill | ⟨-, rows', hrows', hterms⟩
  · rw [hstill] at hrows
    cases hrows
  · rw [hrows'] at hrows
    obtain rfl := OwnerContracts.current.inj hrows
    have hassigned := hterms (List.ne_nil_of_mem ho)
    have hids : rows'.map (·.apartmentId) = contracts.map (·.apartmentId) := apartments_hasTerms hassigned
    obtain ⟨row, hrow, d, hd, hcommission, rfl⟩ := exists_of_forall₂ hassigned.flip o ho
    simp only [isCommission, Bool.and_eq_true, beq_iff_eq] at hcommission
    rw [processElement_delivered hL hok.catalogue (by rw [hids]; exact hkeys) hrow hd rfl hvalue, hcommission.1.2,
      hcommission.2]
    rfl

def oldContract (apartmentId : String) (commissionBase : RevenueBase) (pct : Fin 101) : OwnerContract :=
  { apartmentId
    ownerId := "OWN-001"
    commissionBase
    commissionPct := (pct : ℕ) / 100
    commissionPct_scale := by
      have h := toNumeric_self 4 (100 * (pct : ℕ))
      rw [show ((100 * (pct : ℕ) : ℤ) : ℚ) / 10 ^ 4 = ((pct : ℕ) : ℚ) / 100 by push_cast; ring] at h
      exact h
    commissionPct_mem := by
      have hle : ((pct : ℕ) : ℚ) ≤ 100 := by exact_mod_cast Nat.lt_succ_iff.mp pct.isLt
      constructor
      · positivity
      · linarith }

/-- Two apartments share their terms. -/
def oldContracts : List OwnerContract :=
  [oldContract "BCN-001" .revenueMinusOta 12, oldContract "BCN-002" .totalRevenue 15,
   oldContract "BCN-003" .revenueMinusOta 12]

def migratedContracts : List OwnerContractRow :=
  [⟨"BCN-001", "OWN-001", "d1"⟩, ⟨"BCN-002", "OWN-001", "d0"⟩, ⟨"BCN-003", "OWN-001", "d1"⟩]

def commissionRow (id : String) (base : RevenueBase) (rate : ℚ) : CostDefinitionRow := (commissionShape base rate).row id

def commissionCatalogue : Catalogue :=
  ⟨true, [commissionRow "d0" .totalRevenue (15 / 100), commissionRow "d1" .revenueMinusOta (12 / 100)],
    [⟨"d0", .direct, none⟩, ⟨"d1", .direct, none⟩]⟩

def shuffledContractRows : List OwnerConfigRow :=
  [.contract ⟨"BCN-003", "OWN-001", "d1"⟩, .definition (commissionRow "d0" .totalRevenue (15 / 100)),
   .contract ⟨"BCN-001", "OWN-001", "d1"⟩, .definition (commissionRow "d1" .revenueMinusOta (12 / 100)),
   .definition (commissionRow "d0" .totalRevenue (15 / 100)), .contract ⟨"BCN-002", "OWN-001", "d0"⟩]

def costOf (apartmentId : String) : CostAggregate :=
  { apartmentId
    apartmentReference := apartmentId
    city := "Barcelona"
    neighborhood := "Eixample"
    propertyType := .studio
    bedrooms := 0
    fixedCostEur := 10
    variableCostEur := 5
    perBookingCostEur := 0
    totalMonthlyCostEur := 450
    availableDays := 30
    costLinesCount := 2
    billingPeriodStart := toordinal 2026 9 1
    billingPeriodEnd := toordinal 2026 9 30
    targetMargin := 5 / 100
    competitivenessDiscount := 5 / 100
    updatedAt := 0 }

theorem oldContracts_migrated : (run (pmStep (Fetch.first _)) (.installed (.legacy oldContracts) (.current []))
    [.ensureSchema, .migrateOwnerContracts ["d0", "d1"]]).toOption =
      some (⟨⟨commissionCatalogue, .current migratedContracts, .current []⟩, none⟩, []) := by
  decide +kernel

theorem thirdContract_charged :
    (shuffledContractRows.foldl OwnerContractEnrichment.processBroadcastElement {}).processElement (costOf "BCN-003") =
      [{ costOf "BCN-003" with commissionBase := .revenueMinusOta, commissionPct := (12 : ℕ) / 100 }] := by
  have hrows : PmDb.contracts ⟨commissionCatalogue, .current migratedContracts, .current []⟩ = .current migratedContracts :=
    rfl
  refine migrated_terms_charged (catalogueOk_empty false) rfl (by decide) (toOption_eq_some.mp oldContracts_migrated) hrows
    ⟨fun row => ?_, fun row => ?_⟩ (o := oldContract "BCN-003" .revenueMinusOta 12) (by simp [oldContracts]) rfl
  · simp only [shuffledContractRows, migratedContracts, List.mem_cons, List.not_mem_nil, or_false, reduceCtorEq, false_or,
      OwnerConfigRow.contract.injEq]
    tauto
  · simp only [shuffledContractRows, commissionCatalogue, List.mem_cons, List.not_mem_nil, or_false, reduceCtorEq,
      false_or, OwnerConfigRow.definition.injEq]
    tauto

/-! ## Payment lines -/

/-- The definitions of the table and versions of their rules, each definition and a rule of it at least once. -/
structure CostRowsDelivered (c : Catalogue) (L : List CostConfigRow) : Prop where
  definition : ∀ row, .definition row ∈ L ↔ row ∈ c.definitions
  rule : ∀ row, .allocationRule row ∈ L →
    ∃ rule ∈ c.rules, rule.costDefinitionId = row.costDefinitionId ∧ rule.method = row.method
  ruled : ∀ rule ∈ c.rules, ∃ row, .allocationRule row ∈ L ∧ row.costDefinitionId = rule.costDefinitionId

def resolvedLine (value : PaymentLine) (d : CostDefinitionRow) (rule : CostAllocationRuleRow) : EnrichedPaymentLine :=
  { eventId := value.eventId
    apartmentId := value.apartmentId
    apartmentReference := value.apartmentReference
    billingPeriodStart := value.billingPeriodStart
    billingPeriodEnd := value.billingPeriodEnd
    amountGross := value.amountGross
    concept := d.concept
    scope := d.scope
    behavior := d.behavior
    trigger := d.trigger
    calculationBase := d.calculationBase
    recurrence := d.recurrence
    revenueBase := d.revenueBase
    allocationMethod := rule.method
    weightConfig := rule.weightConfig
    rate := d.rate }

/-- The enriched line has the dimensions of the definition and the method of its rule. -/
structure Classified (d : CostDefinitionRow) (rule : CostAllocationRuleRow) (value : PaymentLine)
    (line : EnrichedPaymentLine) : Prop where
  eventId : line.eventId = value.eventId
  apartmentId : line.apartmentId = value.apartmentId
  periodStart : line.billingPeriodStart = value.billingPeriodStart
  periodEnd : line.billingPeriodEnd = value.billingPeriodEnd
  amountGross : line.amountGross = value.amountGross
  shape : (⟨line.concept, line.scope, line.behavior, line.trigger, line.calculationBase, line.recurrence,
    line.revenueBase, line.rate⟩ : CostShape) = shapeOf d
  method : line.allocationMethod = rule.method

/-- No line of a definition in the table is dropped once the tables have been delivered. -/
theorem line_resolves {c : Catalogue} {L : List CostConfigRow} (hL : CostRowsDelivered c L) (hok : CatalogueOk c)
    {d : CostDefinitionRow} (hd : d ∈ c.definitions) {value : PaymentLine}
    (hvalue : value.costDefinitionId = d.costDefinitionId) : ∃ rule ∈ c.rules, rule.costDefinitionId = d.costDefinitionId ∧
      ∃ line, (L.foldl CostDefinitionResolution.processBroadcastElement {}).processElement value = [line] ∧
        Classified d rule value line := by
  obtain ⟨rule, ⟨hrule, hid⟩, honly⟩ := hok.existsUnique_rule hd
  have hdefinition : ((L.filterMap costDefinitionOf).foldl
      (fun d row => d.put row.costDefinitionId row) Dict.empty).get? d.costDefinitionId = some d := by
    refine Dict.get?_foldl_put_of_forall (·.costDefinitionId) id
      (mem_costDefinitions.mpr ((hL.definition d).mpr hd)) fun d' hd' hkey => ?_
    exact hok.registered.eq_of_id ((hL.definition d').mp (mem_costDefinitions.mp hd')) hd hkey
  have hallocation : ∃ row : CostAllocationRuleRow, ((L.filterMap allocationRuleOf).foldl
      (fun d row => d.put row.costDefinitionId row) Dict.empty).get? d.costDefinitionId = some row ∧
        row.method = rule.method := by
    obtain ⟨row, hrow, hrowId⟩ := hL.ruled rule hrule
    have hget := Dict.get?_foldl_put (fun row : CostAllocationRuleRow => row.costDefinitionId) id
      (L.filterMap allocationRuleOf) d.costDefinitionId
    cases hfind : (L.filterMap allocationRuleOf).reverse.find?
        fun row => row.costDefinitionId == d.costDefinitionId with
    | none =>
      have hno := List.find?_eq_none.mp hfind row (List.mem_reverse.mpr (mem_allocationRules.mpr hrow))
      rw [hrowId, hid] at hno
      simp at hno
    | some last =>
      have hlast := mem_allocationRules.mp (List.mem_reverse.mp (List.mem_of_find?_eq_some hfind))
      have hlastId : last.costDefinitionId = d.costDefinitionId := by simpa using List.find?_some hfind
      obtain ⟨rule', hrule', hid', hmethod⟩ := hL.rule last hlast
      rw [honly rule' ⟨hrule', hid'.trans hlastId⟩] at hmethod
      rw [hfind] at hget
      exact ⟨last, hget, hmethod.symm⟩
  obtain ⟨row, hget, hmethod⟩ := hallocation
  refine ⟨rule, hrule, hid, resolvedLine value d row, ?_, ?_⟩
  · unfold CostDefinitionResolution.processElement
    rw [foldl_cost, hvalue, hdefinition, hget]
    rfl
  · exact ⟨rfl, rfl, rfl, rfl, rfl, rfl, hmethod⟩

/-- The row is the old line, with a definition of its concept, behavior and recurrence. -/
structure Carries (c : Catalogue) (l : LineRow LegacyCost) (row : LineRow String) : Prop where
  eventId : row.eventId = l.eventId
  apartmentId : row.apartmentId = l.apartmentId
  periodStart : row.billingPeriodStart = l.billingPeriodStart
  periodEnd : row.billingPeriodEnd = l.billingPeriodEnd
  amountGross : row.amountGross = l.amountGross
  definition : ∃ d ∈ c.definitions, classifies l.cost d = true ∧ d.costDefinitionId = row.cost

theorem Carries.mono {c c' : Catalogue} {l : LineRow LegacyCost} {row : LineRow String} (h : Carries c l row)
    (hext : Extends c c') : Carries c' l row := by
  obtain ⟨d, hd, hrest⟩ := h.definition
  exact { h with definition := ⟨d, hext.definitions d hd, hrest⟩ }

def LinesKept (lines : List (LineRow LegacyCost)) (s : PmApp) : Prop :=
  s.db.lines = .legacy lines ∨ s.db.catalogue.ensured = true ∧ ∃ rows, s.db.lines = .current rows ∧
    ∀ l ∈ lines, ∃ row ∈ rows, Carries s.db.catalogue l row

theorem insertRow_subset {rows rows' : List (LineRow String)} {row : LineRow String}
    (h : insertRow rows row = some rows') : ∀ r ∈ rows, r ∈ rows' := by
  intro r hr
  unfold insertRow at h
  dsimp only at h
  split_ifs at h
  rw [← Option.some.inj h]
  exact List.mem_append_left _ hr

theorem insertOne_subset {m : Dict Concept String} {rows rows' : List (LineRow String)} {apartment : Apartment}
    {draw : BillDraw} {eventId : String} {now : ℤ} (h : insertOne m rows apartment draw eventId now = some rows') :
    ∀ r ∈ rows, r ∈ rows' := by
  unfold insertOne at h
  obtain ⟨id, -, h⟩ := Option.bind_eq_some_iff.mp h
  split_ifs at h
  · rw [← Option.some.inj h]
    exact fun r hr => hr
  · exact insertRow_subset h

theorem LinesKept.step {lines : List (LineRow LegacyCost)} {s s' : PmApp} {maps : List (Dict Concept String)}
    (h : LinesKept lines s) (he : Effect s s' maps) : LinesKept lines s' := by
  have hstep := he.lines
  rcases h with hlegacy | ⟨hensured, rows, hrows, hcarried⟩
  · rw [hlegacy] at hstep
    unfold LinesKept
    generalize hnext : s'.db.lines = next at hstep ⊢
    cases hstep with
    | same => exact .inl rfl
    | migrated hensured hassigned =>
      refine .inr ⟨hensured, _, rfl, fun l hl => ?_⟩
      obtain ⟨row, hrow, d, hd, hclass, now, rfl⟩ := exists_of_forall₂ hassigned.flip l hl
      exact ⟨_, hrow, rfl, rfl, rfl, rfl, rfl, d, hd, hclass, rfl⟩
  · rw [hrows] at hstep
    have hext := he.kept hensured
    have hall : ∀ l ∈ lines, ∃ row ∈ rows, Carries s'.db.catalogue l row := by
      intro l hl
      obtain ⟨row, hrow, hl⟩ := hcarried l hl
      exact ⟨row, hrow, hl.mono hext⟩
    unfold LinesKept
    generalize hnext : s'.db.lines = next at hstep ⊢
    refine .inr ⟨hext.ensured hensured, ?_⟩
    cases hstep with
    | same => exact ⟨rows, rfl, hall⟩
    | seeded _ _ =>
      refine ⟨_, rfl, fun l hl => ?_⟩
      obtain ⟨row, hrow, -⟩ := hall l hl
      cases hrow
    | inserted _ hinsert =>
      refine ⟨_, rfl, fun l hl => ?_⟩
      obtain ⟨row, hrow, hl⟩ := hall l hl
      exact ⟨row, insertOne_subset hinsert row hrow, hl⟩
    | flipped eventId now =>
      refine ⟨_, rfl, fun l hl => ?_⟩
      obtain ⟨row, hrow, hl⟩ := hall l hl
      refine ⟨_, List.mem_map.mpr ⟨row, hrow, rfl⟩, ?_⟩
      split_ifs
      · exact ⟨hl.eventId, hl.apartmentId, hl.periodStart, hl.periodEnd, hl.amountGross, hl.definition⟩
      · exact hl

/-- Before the schema is current there is nothing in the tables; after, nothing of an unknown shape. -/
def AllKnown (s : PmApp) : Prop :=
  (s.db.catalogue.ensured = false → s.db.catalogue.definitions = []) ∧
    ∀ d ∈ s.db.catalogue.definitions, Known (shapeOf d)

theorem AllKnown.step {s s' : PmApp} {maps : List (Dict Concept String)} (h : AllKnown s) (he : Effect s s' maps) :
    AllKnown s' := by
  cases hensured : s.db.catalogue.ensured with
  | true =>
    have hext := he.kept hensured
    refine ⟨fun hno => not_ensured (hext.ensured hensured) hno, fun d hd => ?_⟩
    exact (hext.added d hd).elim (h.2 d) id
  | false =>
    have hnil := h.1 hensured
    rcases he.old hensured with hsame | hschema
    · rw [AllKnown, hsame]
      exact h
    · unfold ensureSchema at hschema
      simp only [hnil, List.map_nil, List.all_nil, if_true] at hschema
      have hcatalogue := Option.some.inj hschema
      refine ⟨fun _ => by rw [← hcatalogue], fun d hd => ?_⟩
      rw [← hcatalogue] at hd
      cases hd

/-- A definition that fits an old line takes its amount as it is. -/
theorem Known.fixedAmount {cost : LegacyCost} {d : CostDefinitionRow} (h : Known (shapeOf d))
    (hclass : classifies cost d = true) : d.calculationBase = .fixedAmount ∧ d.rate = none := by
  simp only [classifies, Bool.and_eq_true, beq_iff_eq] at hclass
  have hrecurrence : d.recurrence = .monthly ∨ d.recurrence = .oneOff := by
    rw [hclass.2]
    unfold LegacyCost.recurrence
    cases cost.costType <;> simp
  generalize hshape : shapeOf d = shape at h
  have hbase : d.calculationBase = shape.calculationBase := by rw [← hshape]; rfl
  have hrate : d.rate = shape.rate := by rw [← hshape]; rfl
  have hrec : d.recurrence = shape.recurrence := by rw [← hshape]; rfl
  rw [hbase, hrate]
  rw [hrec] at hrecurrence
  cases h with
  | spec hspec =>
    have hall : ∀ spec ∈ costDefinitionSpecs, spec.recurrence = .monthly ∨ spec.recurrence = .oneOff →
        spec.calculationBase = .fixedAmount ∧ spec.rate = none := by decide +kernel
    exact hall _ hspec hrecurrence
  | commission base rate => simp [commissionShape] at hrecurrence
  | legacy => exact ⟨rfl, rfl⟩

/-- Every old payment line is still there after the migration, and the job takes its amount for a cost of the line's
own concept, behavior and recurrence, whatever definition the migration chose for it and whatever has happened to the
tables since. -/
theorem migrated_lines_classified {contracts : OwnerContracts} {lines : List (LineRow LegacyCost)}
    (h : run (pmStep fetch) (.installed contracts (.legacy lines)) es = .ok (s, maps)) {rows : List (LineRow String)}
    (hrows : s.db.lines = .current rows) {L : List CostConfigRow} (hL : CostRowsDelivered s.db.catalogue L)
    {l : LineRow LegacyCost} (hl : l ∈ lines) : ∃ row ∈ rows, row.eventId = l.eventId ∧ row.apartmentId = l.apartmentId ∧
      row.billingPeriodStart = l.billingPeriodStart ∧ row.billingPeriodEnd = l.billingPeriodEnd ∧
      row.amountGross = l.amountGross ∧ ∀ value : PaymentLine, value.costDefinitionId = row.cost →
        ∃ line, (L.foldl CostDefinitionResolution.processBroadcastElement {}).processElement value = [line] ∧
          line.amountGross = value.amountGross ∧ line.concept = l.cost.concept ∧ line.behavior = l.cost.behavior ∧
          line.recurrence = l.cost.recurrence ∧ line.calculationBase = .fixedAmount := by
  have hstart : AppOk (.installed contracts (.legacy lines)) := appOk_start (catalogueOk_empty false)
  have hok := (run_effect hstart h).1
  have hknown := run_kept (I := AllKnown) (fun _ => AllKnown.step) hstart ⟨fun _ => rfl, fun _ hd => (nomatch hd)⟩ h
  rcases run_kept (I := LinesKept lines) (fun _ => LinesKept.step) hstart (.inl rfl) h with
    hstill | ⟨-, rows', hrows', hcarried⟩
  · rw [hstill] at hrows
    cases hrows
  · rw [hrows'] at hrows
    obtain rfl := PaymentLines.current.inj hrows
    obtain ⟨row, hrow, hl⟩ := hcarried l hl
    obtain ⟨d, hd, hclass, hid⟩ := hl.definition
    have hfixed := ((hknown.2 d hd).fixedAmount hclass).1
    simp only [classifies, Bool.and_eq_true, beq_iff_eq] at hclass
    refine ⟨row, hrow, hl.eventId, hl.apartmentId, hl.periodStart, hl.periodEnd, hl.amountGross, fun value hvalue => ?_⟩
    obtain ⟨rule, -, -, line, hline, hclassified⟩ := line_resolves hL hok.catalogue hd (hvalue.trans hid.symm)
    injection hclassified.shape with hconcept _ hbehavior _ hbase hrecurrence
    exact ⟨line, hline, hclassified.amountGross, hconcept.trans hclass.1.1, hbehavior.trans hclass.1.2,
      hrecurrence.trans hclass.2, hbase.trans hfixed⟩

def oldLine (eventId : String) (concept : Concept) (costType : CostType) (amountGross : ℚ) : LineRow LegacyCost :=
  { eventId
    apartmentId := "BCN-001"
    apartmentReference := "BCN-001"
    cost := ⟨concept, costType⟩
    billingPeriodStart := toordinal 2026 8 1
    billingPeriodEnd := toordinal 2026 8 31
    amountGross
    vatRate := 21 / 100
    dueDate := none
    paymentDate := none
    paymentMethod := none
    paymentStatus := .pending
    source := .synthetic
    createdAt := 10
    updatedAt := none }

def oldLines : List (LineRow LegacyCost) := [oldLine "e1" .electricity .variable' 90, oldLine "e2" .cleaning .oneTime 60]

def migratedLines : List (LineRow String) :=
  [(oldLine "e1" .electricity .variable' 90).withCost "d0" 20, (oldLine "e2" .cleaning .oneTime 60).withCost "d1" 20]

def legacyCatalogue : Catalogue :=
  ⟨true, [(legacyShape ⟨.electricity, .variable'⟩).row "d0", (legacyShape ⟨.cleaning, .oneTime⟩).row "d1"],
    [⟨"d0", .calendarDay, none⟩, ⟨"d1", .direct, none⟩]⟩

theorem oldLines_migrated : (run (pmStep (Fetch.first _)) (.installed (.current []) (.legacy oldLines))
    [.ensureSchema, .migratePaymentLines 20 ["d0", "d1"]]).toOption =
      some (⟨⟨legacyCatalogue, .current [], .current migratedLines⟩, none⟩, []) := by
  decide +kernel

/-- Every row of the two tables, once. -/
theorem delivered_tables (c : Catalogue) :
    CostRowsDelivered c (c.definitions.map .definition ++ c.rules.map .allocationRule) := by
  refine ⟨fun row => ?_, fun row hrow => ?_, fun rule hrule => ?_⟩
  · simp
  · exact ⟨row, by simpa using hrow, rfl, rfl⟩
  · exact ⟨rule, by simpa using hrule, rfl⟩

theorem cleaning_classified : ∃ row ∈ migratedLines, row.eventId = "e2" ∧ row.apartmentId = "BCN-001" ∧
    row.billingPeriodStart = toordinal 2026 8 1 ∧ row.billingPeriodEnd = toordinal 2026 8 31 ∧ row.amountGross = 60 ∧
    ∀ value : PaymentLine, value.costDefinitionId = row.cost → ∃ line,
      ((legacyCatalogue.definitions.map CostConfigRow.definition ++
        legacyCatalogue.rules.map CostConfigRow.allocationRule).foldl
          CostDefinitionResolution.processBroadcastElement {}).processElement value = [line] ∧
      line.amountGross = value.amountGross ∧ line.concept = .cleaning ∧ line.behavior = .variable' ∧
      line.recurrence = .oneOff ∧ line.calculationBase = .fixedAmount :=
  migrated_lines_classified (toOption_eq_some.mp oldLines_migrated) rfl (delivered_tables legacyCatalogue)
    (l := oldLine "e2" .cleaning .oneTime 60) (by simp [oldLines])

/-! ## The migrations go through -/

theorem migrateOwnerContracts_commits (fetch : Fetch CostDefinitionRow) (hs : AppOk s)
    (hensured : s.db.catalogue.ensured = true) {uuids : List String}
    (hfresh : Fresh s.db.catalogue uuids) {contracts : List OwnerContract} (hlegacy : s.db.contracts = .legacy contracts)
    (hlength : contracts.length ≤ uuids.length) : ∃ s' rows,
      transaction fetch s (.migrateOwnerContracts uuids) = some (s', []) ∧ s'.db.catalogue.ensured = true ∧
        s'.db.contracts = .current rows ∧ List.Forall₂ (HasTerms s'.db.catalogue) contracts rows := by
  obtain ⟨⟨t, rows⟩, hmigrate⟩ := backfill_isSome fetch (fun _ => .direct)
    (fun o id => (⟨o.apartmentId, o.ownerId, id⟩ : OwnerContractRow)) (t := ⟨s.db.catalogue, uuids⟩) matching_commission
    hs.catalogue rateChecks_commission hfresh hlength
  obtain ⟨-, hext, hassigned⟩ := backfill_ok matching_commission hs.catalogue hensured hmigrate
  refine ⟨⟨⟨t.catalogue, .current rows, s.db.lines⟩, s.conceptToId⟩, rows, ?_, hext.ensured hensured, rfl, hassigned⟩
  unfold transaction migrateOwnerContractsToCostDefinitions
  simp only [hensured, hlegacy]
  rw [hmigrate]
  rfl

theorem migratePaymentLines_commits (fetch : Fetch CostDefinitionRow) (hs : AppOk s)
    (hensured : s.db.catalogue.ensured = true) {uuids : List String}
    (hfresh : Fresh s.db.catalogue uuids) {lines : List (LineRow LegacyCost)} (hlegacy : s.db.lines = .legacy lines)
    (hlength : lines.length ≤ uuids.length) (now : ℤ) : ∃ s' rows,
      transaction fetch s (.migratePaymentLines now uuids) = some (s', []) ∧ s'.db.catalogue.ensured = true ∧
        s'.db.lines = .current rows ∧ List.Forall₂ (HasClass s'.db.catalogue) lines rows := by
  obtain ⟨⟨t, rows⟩, hmigrate⟩ := backfill_isSome fetch
    (fun row => if row.recurrence = .oneOff then .direct else .calendarDay)
    (fun (l : LineRow LegacyCost) id => l.withCost id now) (t := ⟨s.db.catalogue, uuids⟩) matching_legacy hs.catalogue
    (fun l => rateChecks_legacy l.cost) hfresh hlength
  obtain ⟨-, hext, hassigned⟩ := backfill_ok matching_legacy hs.catalogue hensured hmigrate
  refine ⟨⟨⟨t.catalogue, s.db.contracts, .current rows⟩, s.conceptToId⟩, rows, ?_, hext.ensured hensured, rfl,
    hassigned.imp fun l row hrow => ?_⟩
  · unfold transaction migratePaymentLinesToCostDefinitions
    simp only [hensured, hlegacy]
    rw [hmigrate]
    rfl
  · obtain ⟨d, hd, hclass, rfl⟩ := hrow
    exact ⟨d, hd, hclass, now, rfl⟩

/-- In every state with a current schema both migrations go through, given ids enough: no row is left without a
definition that says what its old columns said. Run again they change nothing. -/
theorem migrations_commit {db : PmDb} (hdb : CatalogueOk db.catalogue)
    (h : run (pmStep fetch) ⟨db, none⟩ es = .ok (s, maps)) (hensured : s.db.catalogue.ensured = true)
    {uuids : List String} (hfresh : Fresh s.db.catalogue uuids) :
    (∀ contracts, s.db.contracts = .legacy contracts → contracts.length ≤ uuids.length → ∃ s' rows,
      transaction fetch s (.migrateOwnerContracts uuids) = some (s', []) ∧ s'.db.contracts = .current rows ∧
        List.Forall₂ (HasTerms s'.db.catalogue) contracts rows ∧
        ∀ uuids', transaction fetch s' (.migrateOwnerContracts uuids') = some (s', [])) ∧
    ∀ lines now, s.db.lines = .legacy lines → lines.length ≤ uuids.length → ∃ s' rows,
      transaction fetch s (.migratePaymentLines now uuids) = some (s', []) ∧ s'.db.lines = .current rows ∧
        List.Forall₂ (HasClass s'.db.catalogue) lines rows ∧
        ∀ now' uuids', transaction fetch s' (.migratePaymentLines now' uuids') = some (s', []) := by
  have hs := (run_effect (appOk_start hdb) h).1
  constructor
  · intro contracts hlegacy hlength
    obtain ⟨s', rows, hcommit, hensured', hrows, hterms⟩ :=
      migrateOwnerContracts_commits fetch hs hensured hfresh hlegacy hlength
    refine ⟨s', rows, hcommit, hrows, hterms, fun uuids' => ?_⟩
    unfold transaction
    simp only [hensured', hrows]
  · intro lines now hlegacy hlength
    obtain ⟨s', rows, hcommit, hensured', hrows, hclass⟩ :=
      migratePaymentLines_commits fetch hs hensured hfresh hlegacy hlength now
    refine ⟨s', rows, hcommit, hrows, hclass, fun now' uuids' => ?_⟩
    unfold transaction
    simp only [hensured', hrows]

theorem oldLines_commit : ∃ s', transaction (Fetch.first _) ⟨⟨⟨true, [], []⟩, .current [], .legacy oldLines⟩, none⟩
    (.migratePaymentLines 20 ["d0", "d1"]) = some (s', []) ∧ ∀ now' uuids',
      transaction (Fetch.first _) s' (.migratePaymentLines now' uuids') = some (s', []) := by
  have hensure : (run (pmStep (Fetch.first _)) (.installed (.current []) (.legacy oldLines)) [.ensureSchema]) =
      .ok (⟨⟨⟨true, [], []⟩, .current [], .legacy oldLines⟩, none⟩, []) := rfl
  have hfresh : Fresh ⟨true, [], []⟩ ["d0", "d1"] := ⟨by decide, by decide⟩
  obtain ⟨s', -, hcommit, -, -, hagain⟩ :=
    (migrations_commit (catalogueOk_empty false) hensure rfl hfresh).2 oldLines 20 rfl (by decide)
  exact ⟨s', hcommit, hagain⟩

end PriceEngine.MockPmApp
