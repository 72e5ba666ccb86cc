import PriceEngine.CatalogueSound
import PriceEngine.PaymentLedger

/-!
# Runs of mock-pm-app on the cost tables

`effect` says once what any transaction may do to the four tables. From it, by
induction on the run: the cost tables stay well formed whatever the order of
transactions and wherever a process is lost, and every process resolves the
same ids. What the two migrations give the old rows still means what the rows
said.
-/

namespace PriceEngine.MockPmApp

variable {fetch : Fetch CostDefinitionRow}

/-! ## What a transaction does -/

/-- A contract whose definition is one of the owner's commission. -/
def HasCommission (c : Catalogue) (row : OwnerContractRow) : Prop :=
  ∃ d ∈ c.definitions, d.concept = .ownerCommission ∧ d.costDefinitionId = row.costDefinitionId

/-- The row keeps its parties, and its definition has the terms of the contract. -/
def HasTerms (c : Catalogue) (o : OwnerContract) (row : OwnerContractRow) : Prop :=
  ∃ d ∈ c.definitions, isCommission o.commissionBase o.commissionPct d = true ∧
    row = ⟨o.apartmentId, o.ownerId, d.costDefinitionId⟩

/-- The row is the line as it was, with a definition that matches its old columns. -/
def HasClass (c : Catalogue) (l : LineRow LegacyCost) (row : LineRow String) : Prop :=
  ∃ d ∈ c.definitions, classifies l.cost d = true ∧ ∃ now, row = l.withCost d.costDefinitionId now

inductive ContractsStep (c : Catalogue) : OwnerContracts → OwnerContracts → Prop
  | same (contracts : OwnerContracts) : ContractsStep c contracts contracts
  | migrated {rows : List OwnerContract} {rows' : List OwnerContractRow} :
    c.ensured = true → List.Forall₂ (HasTerms c) rows rows' → ContractsStep c (.legacy rows) (.current rows')
  | seeded {rows : List OwnerContractRow} : c.ensured = true → (∀ row ∈ rows, HasCommission c row) →
    ContractsStep c (.current []) (.current rows)

inductive LinesStep (c : Catalogue) (conceptToId : Option (Dict Concept String)) : PaymentLines → PaymentLines → Prop
  | same (lines : PaymentLines) : LinesStep c conceptToId lines lines
  | migrated {rows : List (LineRow LegacyCost)} {rows' : List (LineRow String)} :
    c.ensured = true → List.Forall₂ (HasClass c) rows rows' → LinesStep c conceptToId (.legacy rows) (.current rows')
  | seeded {m : Dict Concept String} {now : ℤ} {count seedMonths : ℕ} {draws : ℕ → ApartmentDraw}
    {samples : String → ℕ → BillSample} {uuids : List String} {rows : List (LineRow String)} : conceptToId = some m →
    insertBills m now [] uuids
      (seedBills (buildApartmentPool count draws) seedMonths (Instant.date now) samples) = some rows →
    LinesStep c conceptToId (.current []) (.current rows)
  | inserted {m : Dict Concept String} {now : ℤ} {apartment : Apartment} {draw : BillDraw} {eventId : String}
    {rows rows' : List (LineRow String)} : conceptToId = some m →
    insertOne m rows apartment draw eventId now = some rows' → LinesStep c conceptToId (.current rows) (.current rows')
  | flipped {rows : List (LineRow String)} (eventId : String) (now : ℤ) :
    LinesStep c conceptToId (.current rows) (.current (flipOnePendingToPaid rows eventId now))

/-- The cost tables are well formed, and so is the map of the process. -/
structure AppOk (s : PmApp) : Prop where
  catalogue : CatalogueOk s.db.catalogue
  resolved : ∀ m ∈ s.conceptToId, s.db.catalogue.ensured = true ∧ Resolved s.db.catalogue costDefinitionSpecs m

structure Effect (s s' : PmApp) (maps : List (Dict Concept String)) : Prop where
  ok : AppOk s'
  kept : s.db.catalogue.ensured = true → Extends s.db.catalogue s'.db.catalogue
  old : s.db.catalogue.ensured = false →
    s'.db.catalogue = s.db.catalogue ∨ ensureSchema s.db.catalogue = some s'.db.catalogue
  contracts : ContractsStep s'.db.catalogue s.db.contracts s'.db.contracts
  lines : LinesStep s'.db.catalogue s.conceptToId s.db.lines s'.db.lines
  maps : ∀ m ∈ maps, s'.db.catalogue.ensured = true ∧ Resolved s'.db.catalogue costDefinitionSpecs m

/-! ## The seeded contracts -/

structure TablesOk (c : Catalogue) (tables : ContractTables) : Prop where
  catalogue : CatalogueOk tables.catalogue
  extends' : Extends c tables.catalogue
  rows : ∀ row ∈ tables.rows, HasCommission tables.catalogue row

theorem HasCommission.mono {c c' : Catalogue} {row : OwnerContractRow} (h : HasCommission c row) (hext : Extends c c') :
    HasCommission c' row := by
  obtain ⟨d, hd, hrest⟩ := h
  exact ⟨d, hext.definitions d hd, hrest⟩

theorem mem_insertContract {rows : List OwnerContractRow} {contract : OwnerContract} {id : String}
    {row : OwnerContractRow} (h : row ∈ insertContract rows contract id) :
    row ∈ rows ∨ row = ⟨contract.apartmentId, contract.ownerId, id⟩ := by
  unfold insertContract at h
  split_ifs at h
  · exact .inl h
  · simpa using h

theorem seedOwnerContracts_ok {c : Catalogue} (hensured : c.ensured = true) {contracts : List OwnerContract} :
    ∀ {durable working : ContractTables} {uuids : List String}, TablesOk c durable → TablesOk c working →
      TablesOk c (seedOwnerContracts fetch durable working uuids contracts).1 := by
  induction contracts with
  | nil => exact fun _ hworking => hworking
  | cons contract contracts ih =>
    intro durable working uuids hdurable hworking
    unfold seedOwnerContracts
    cases hresolve : resolveOwnerCommissionCostDefinitionId fetch ⟨working.catalogue, uuids⟩ contract.commissionBase
        contract.commissionPct with
    | none => exact hdurable
    | some r =>
      obtain ⟨t, id, inserted⟩ := r
      obtain ⟨hok, hext, d, hd, hcommission, hid⟩ := resolveCommission_ok contract.commissionPct_scale
        hworking.catalogue (hworking.extends'.ensured hensured) hresolve
      have hrows : ∀ row ∈ working.rows, HasCommission t.catalogue row :=
        fun row hrow => (hworking.rows row hrow).mono hext
      refine ih ?_ ⟨hok, hworking.extends'.trans hext, fun row hrow => ?_⟩
      · cases inserted with
        | true => exact ⟨hok, hworking.extends'.trans hext, hrows⟩
        | false => exact hdurable
      · rcases mem_insertContract hrow with hrow | rfl
        · exact hrows row hrow
        · refine ⟨d, hd, ?_, hid⟩
          simp only [isCommission, Bool.and_eq_true, beq_iff_eq] at hcommission
          exact hcommission.1.1

/-! ## One step -/

/-- Where the catalogue is extended, the map of the process still holds. -/
theorem AppOk.extend {s : PmApp} {c : Catalogue} {contracts : OwnerContracts} {lines : PaymentLines} (h : AppOk s)
    (hok : CatalogueOk c) (hext : s.db.catalogue.ensured = true → Extends s.db.catalogue c) :
    AppOk ⟨⟨c, contracts, lines⟩, s.conceptToId⟩ := by
  refine ⟨hok, fun m hm => ?_⟩
  obtain ⟨hensured, hres⟩ := h.resolved m hm
  exact ⟨(hext hensured).ensured hensured, hres.mono (hext hensured)⟩

theorem not_ensured {c : Catalogue} {p : Prop} (h : c.ensured = true) (hno : c.ensured = false) : p := by
  rw [h] at hno
  cases hno

theorem Effect.same {s : PmApp} (h : AppOk s) : Effect s s [] :=
  ⟨h, fun _ => .refl _, fun _ => .inl rfl, .same _, .same _, fun _ hm => (nomatch hm)⟩

theorem Effect.lost {s : PmApp} (h : AppOk s) : Effect s { s with conceptToId := none } [] :=
  ⟨⟨h.catalogue, fun _ hm => (nomatch hm)⟩, fun _ => .refl _, fun _ => .inl rfl, .same _, .same _,
    fun _ hm => (nomatch hm)⟩

/-- A transaction on the payment lines alone. -/
theorem Effect.onLines {s : PmApp} (h : AppOk s) {lines : PaymentLines}
    (hlines : LinesStep s.db.catalogue s.conceptToId s.db.lines lines) :
    Effect s { s with db := { s.db with lines } } [] :=
  ⟨⟨h.catalogue, h.resolved⟩, fun _ => .refl _, fun _ => .inl rfl, .same _, hlines, fun _ hm => (nomatch hm)⟩

/-- A transaction that adds to the catalogue. -/
theorem Effect.extended {s : PmApp} (h : AppOk s) (hensured : s.db.catalogue.ensured = true) {c : Catalogue}
    {contracts : OwnerContracts} {lines : PaymentLines} (hok : CatalogueOk c) (hext : Extends s.db.catalogue c)
    (hcontracts : ContractsStep c s.db.contracts contracts) (hlines : LinesStep c s.conceptToId s.db.lines lines) :
    Effect s ⟨⟨c, contracts, lines⟩, s.conceptToId⟩ [] :=
  ⟨h.extend hok fun _ => hext, fun _ => hext, not_ensured hensured, hcontracts, hlines, fun _ hm => (nomatch hm)⟩

section
variable {s s' : PmApp} {maps : List (Dict Concept String)} (hs : AppOk s)
include hs

theorem effect_ensureSchema (h : transaction fetch s .ensureSchema = some (s', maps)) : Effect s s' maps := by
  obtain ⟨c, hc, heq⟩ := Option.map_eq_some_iff.mp h
  obtain ⟨rfl, rfl⟩ := Prod.mk.inj heq
  have hkept := fun hensured => extends_ensureSchema hs.catalogue hensured hc
  exact ⟨hs.extend (hs.catalogue.ensureSchema hc) hkept, hkept, fun _ => .inr hc, .same _, .same _,
    fun _ hm => (nomatch hm)⟩

theorem effect_migrateOwnerContracts {uuids : List String}
    (h : transaction fetch s (.migrateOwnerContracts uuids) = some (s', maps)) : Effect s s' maps := by
  unfold transaction at h
  dsimp only at h
  split at h
  · cases h
  · obtain ⟨rfl, rfl⟩ := Prod.mk.inj (Option.some.inj h)
    exact .same hs
  · next rows hensured hrows =>
    obtain ⟨⟨t, rows'⟩, hmigrate, heq⟩ := Option.map_eq_some_iff.mp h
    obtain ⟨rfl, rfl⟩ := Prod.mk.inj heq
    obtain ⟨hok, hext, hassigned⟩ := backfill_ok matching_commission hs.catalogue hensured hmigrate
    refine .extended hs hensured hok hext ?_ (.same _)
    rw [hrows]
    exact .migrated (hext.ensured hensured) hassigned

theorem effect_resolveCostDefinitionIds {uuids : List String}
    (h : transaction fetch s (.resolveCostDefinitionIds uuids) = some (s', maps)) : Effect s s' maps := by
  unfold transaction at h
  dsimp only at h
  split at h
  · cases h
  · next hensured =>
    obtain ⟨⟨t, m⟩, hresolve, heq⟩ := Option.map_eq_some_iff.mp h
    obtain ⟨rfl, rfl⟩ := Prod.mk.inj heq
    obtain ⟨hok, hext, hres⟩ := resolveCostDefinitionIds_ok hs.catalogue hensured hresolve
    have hm : ∀ m' ∈ some m, t.catalogue.ensured = true ∧ Resolved t.catalogue costDefinitionSpecs m' := by
      intro m' hm'
      rw [← Option.some.inj hm']
      exact ⟨hext.ensured hensured, hres⟩
    exact ⟨⟨hok, hm⟩, fun _ => hext, not_ensured hensured, .same _, .same _,
      fun m' hm' => hm m' (by rw [List.mem_singleton.mp hm']; rfl)⟩

theorem effect_ensureWeightedAllocationConfig {apartments : List Apartment}
    (h : transaction fetch s (.ensureWeightedAllocationConfig apartments) = some (s', maps)) : Effect s s' maps := by
  obtain ⟨id, hid, heq⟩ := Option.map_eq_some_iff.mp h
  obtain ⟨rfl, rfl⟩ := Prod.mk.inj heq
  obtain ⟨m, hm, -⟩ := Option.bind_eq_some_iff.mp hid
  have hext := extends_ensureWeighted s.db.catalogue id (apartments.map (·.apartmentId))
  have hok := hs.catalogue.ensureWeighted id (apartments.map (·.apartmentId))
  exact .extended hs (hs.resolved m hm).1 hok hext (.same _) (.same _)

theorem effect_migratePaymentLines {now : ℤ} {uuids : List String}
    (h : transaction fetch s (.migratePaymentLines now uuids) = some (s', maps)) : Effect s s' maps := by
  unfold transaction at h
  dsimp only at h
  split at h
  · cases h
  · obtain ⟨rfl, rfl⟩ := Prod.mk.inj (Option.some.inj h)
    exact .same hs
  · next rows hensured hrows =>
    obtain ⟨⟨t, rows'⟩, hmigrate, heq⟩ := Option.map_eq_some_iff.mp h
    obtain ⟨rfl, rfl⟩ := Prod.mk.inj heq
    obtain ⟨hok, hext, hassigned⟩ := backfill_ok matching_legacy hs.catalogue hensured hmigrate
    refine .extended hs hensured hok hext (.same _) ?_
    rw [hrows]
    refine .migrated (hext.ensured hensured) (hassigned.imp fun l row hrow => ?_)
    obtain ⟨d, hd, hclass, rfl⟩ := hrow
    exact ⟨d, hd, hclass, now, rfl⟩

theorem effect_seed {now : ℤ} {count : ℕ} {draws : ℕ → ApartmentDraw} {seedMonths : ℕ}
    {samples : String → ℕ → BillSample} {uuids : List String}
    (h : transaction fetch s (.seed now count draws seedMonths samples uuids) = some (s', maps)) : Effect s s' maps := by
  unfold transaction at h
  dsimp only at h
  split at h
  · cases h
  · cases h
  · obtain ⟨rfl, rfl⟩ := Prod.mk.inj (Option.some.inj h)
    exact .same hs
  · next m hm hrows =>
    obtain ⟨rows, hinsert, heq⟩ := Option.map_eq_some_iff.mp h
    obtain ⟨rfl, rfl⟩ := Prod.mk.inj heq
    refine .onLines hs ?_
    rw [hrows]
    exact .seeded hm hinsert

theorem effect_seedOwnerContracts {contracts : List OwnerContract} {uuids : List String}
    (h : transaction fetch s (.seedOwnerContracts contracts uuids) = some (s', maps)) : Effect s s' maps := by
  unfold transaction at h
  dsimp only at h
  split at h
  · next hensured hrows =>
    obtain ⟨rfl, rfl⟩ := Prod.mk.inj (Option.some.inj h)
    have hstart : TablesOk s.db.catalogue ⟨s.db.catalogue, []⟩ := ⟨hs.catalogue, .refl _, fun _ hrow => (nomatch hrow)⟩
    have htables : TablesOk s.db.catalogue
        (seedOwnerContracts fetch ⟨s.db.catalogue, []⟩ ⟨s.db.catalogue, []⟩ uuids contracts).1 :=
      seedOwnerContracts_ok hensured hstart hstart
    refine ⟨⟨htables.catalogue, fun m hm => ?_⟩, fun _ => htables.extends', not_ensured hensured, ?_, .same _,
      fun _ hm => (nomatch hm)⟩
    · cases hfinished : (seedOwnerContracts fetch ⟨s.db.catalogue, []⟩ ⟨s.db.catalogue, []⟩ uuids contracts).2 with
      | true =>
        simp only [hfinished, if_true] at hm
        exact ⟨htables.extends'.ensured hensured, (hs.resolved m hm).2.mono htables.extends'⟩
      | false => simp [hfinished] at hm
    · rw [hrows]
      exact .seeded (htables.extends'.ensured hensured) htables.rows
  · obtain ⟨rfl, rfl⟩ := Prod.mk.inj (Option.some.inj h)
    exact .same hs
  · cases h

theorem effect_insertOne {now : ℤ} {apartment : Apartment} {draw : BillDraw} {eventId : String}
    (h : transaction fetch s (.insertOne now apartment draw eventId) = some (s', maps)) : Effect s s' maps := by
  unfold transaction at h
  dsimp only at h
  split at h
  · next m rows hm hrows =>
    obtain ⟨rows', hinsert, heq⟩ := Option.map_eq_some_iff.mp h
    obtain ⟨rfl, rfl⟩ := Prod.mk.inj heq
    refine .onLines hs ?_
    rw [hrows]
    exact .inserted hm hinsert
  · cases h

theorem effect_flipOnePendingToPaid {now : ℤ} {eventId : String}
    (h : transaction fetch s (.flipOnePendingToPaid now eventId) = some (s', maps)) : Effect s s' maps := by
  unfold transaction at h
  dsimp only at h
  split at h
  · next rows hrows =>
    obtain ⟨rfl, rfl⟩ := Prod.mk.inj (Option.some.inj h)
    refine .onLines hs ?_
    rw [hrows]
    exact .flipped eventId now
  · cases h

/-- Every transaction that does not raise. -/
theorem effect {e : PmEvent} (h : transaction fetch s e = some (s', maps)) : Effect s s' maps := by
  cases e with
  | start =>
    obtain ⟨rfl, rfl⟩ := Prod.mk.inj (Option.some.inj h)
    exact .lost hs
  | ensureSchema => exact effect_ensureSchema hs h
  | migrateOwnerContracts uuids => exact effect_migrateOwnerContracts hs h
  | resolveCostDefinitionIds uuids => exact effect_resolveCostDefinitionIds hs h
  | ensureWeightedAllocationConfig apartments => exact effect_ensureWeightedAllocationConfig hs h
  | migratePaymentLines now uuids => exact effect_migratePaymentLines hs h
  | seed now count draws seedMonths samples uuids => exact effect_seed hs h
  | seedOwnerContracts contracts uuids => exact effect_seedOwnerContracts hs h
  | insertOne now apartment draw eventId => exact effect_insertOne hs h
  | flipOnePendingToPaid now eventId => exact effect_flipOnePendingToPaid hs h

end

theorem effect_step {s s' : PmApp} {e : PmEvent} {maps : List (Dict Concept String)} (hs : AppOk s)
    (h : pmStep fetch s e = .ok (s', maps)) : Effect s s' maps := by
  unfold pmStep at h
  cases htransaction : transaction fetch s e with
  | none =>
    rw [htransaction] at h
    obtain ⟨rfl, rfl⟩ := Prod.mk.inj (Except.ok.inj h)
    exact .lost hs
  | some r =>
    rw [htransaction] at h
    obtain rfl := Except.ok.inj h
    exact effect hs htransaction

/-! ## Runs -/

variable {s s' : PmApp} {es : List PmEvent} {maps : List (Dict Concept String)}

theorem run_effect (hs : AppOk s) (h : run (pmStep fetch) s es = .ok (s', maps)) :
    AppOk s' ∧ (s.db.catalogue.ensured = true → Extends s.db.catalogue s'.db.catalogue) ∧
      ∀ m ∈ maps, s'.db.catalogue.ensured = true ∧ Resolved s'.db.catalogue costDefinitionSpecs m := by
  induction es generalizing s maps with
  | nil =>
    obtain ⟨rfl, rfl⟩ := run_nil.mp h
    exact ⟨hs, fun _ => .refl _, fun _ hm => (nomatch hm)⟩
  | cons e es ih =>
    obtain ⟨s₁, o, os, hstep, hrest, rfl⟩ := run_cons.mp h
    have he := effect_step hs hstep
    obtain ⟨hok, hkept, hmaps⟩ := ih he.ok hrest
    refine ⟨hok, fun hensured => ?_, fun m hm => ?_⟩
    · exact (he.kept hensured).trans (hkept ((he.kept hensured).ensured hensured))
    · rcases List.mem_append.mp hm with hm | hm
      · obtain ⟨hensured, hres⟩ := he.maps m hm
        exact ⟨(hkept hensured).ensured hensured, hres.mono (hkept hensured)⟩
      · exact hmaps m hm

/-- What one transaction keeps, a run keeps. -/
theorem run_kept {I : PmApp → Prop} (hstep : ∀ {s s' maps}, AppOk s → I s → Effect s s' maps → I s') (hs : AppOk s)
    (hi : I s) (h : run (pmStep fetch) s es = .ok (s', maps)) : I s' := by
  have hboth : AppOk s' ∧ I s' := by
    refine run_preserves (I := fun s => AppOk s ∧ I s) (fun s e s' o hi hs => ?_) ⟨hs, hi⟩ h
    have he := effect_step hi.1 hs
    exact ⟨he.ok, hstep hi.1 hi.2 he⟩
  exact hboth.2

/-- A transaction that raises ends its process, not the run. -/
theorem exists_run (fetch : Fetch CostDefinitionRow) (s : PmApp) (es : List PmEvent) :
    ∃ s' maps, run (pmStep fetch) s es = .ok (s', maps) := by
  induction es generalizing s with
  | nil => exact ⟨s, [], run_nil.mpr ⟨rfl, rfl⟩⟩
  | cons e es ih =>
    obtain ⟨s', maps, h⟩ := ih _
    exact ⟨s', _, run_cons.mpr ⟨_, _, maps, rfl, h, rfl⟩⟩

theorem appOk_start {db : PmDb} (hdb : CatalogueOk db.catalogue) : AppOk ⟨db, none⟩ :=
  ⟨hdb, fun _ hm => (nomatch hm)⟩

theorem catalogueOk_empty (ensured : Bool) : CatalogueOk ⟨ensured, [], []⟩ :=
  ⟨.nil, List.Perm.nil, fun _ hrow => (nomatch hrow), fun _ _ hrow => (nomatch hrow), fun _ _ hrow => (nomatch hrow)⟩

/-- A definition has exactly one rule. -/
theorem CatalogueOk.existsUnique_rule {c : Catalogue} (h : CatalogueOk c) {d : CostDefinitionRow}
    (hd : d ∈ c.definitions) : ∃! rule, rule ∈ c.rules ∧ rule.costDefinitionId = d.costDefinitionId := by
  have hmem := h.ruled.mem_iff.mpr (List.mem_map.mpr ⟨d, hd, rfl⟩)
  obtain ⟨rule, hrule, hid⟩ := List.mem_map.mp hmem
  have hnodup : (c.rules.map (·.costDefinitionId)).Nodup := h.ruled.nodup_iff.mpr h.registered.ids
  exact ⟨rule, ⟨hrule, hid⟩, fun rule' h' => eq_of_map_nodup hnodup h'.1 hrule (h'.2.trans hid.symm)⟩

theorem CatalogueOk.rule_definition {c : Catalogue} (h : CatalogueOk c) {rule : CostAllocationRuleRow}
    (hrule : rule ∈ c.rules) : ∃ d ∈ c.definitions, d.costDefinitionId = rule.costDefinitionId :=
  List.mem_map.mp (h.ruled.mem_iff.mp (List.mem_map.mpr ⟨rule, hrule, rfl⟩))

/-- In every state that well-formed tables are brought to, whatever transactions run and wherever processes are lost,
no two definitions have one shape and each has exactly one allocation rule. Of a current schema no definition is lost
or changed, and no weights that were set. -/
theorem definitions_ruled {t : PmApp} (ht : AppOk t) (h : run (pmStep fetch) t es = .ok (s, maps)) :
    (∀ d ∈ s.db.catalogue.definitions, ∀ d' ∈ s.db.catalogue.definitions, shapeOf d = shapeOf d' → d = d') ∧
    (∀ d ∈ s.db.catalogue.definitions, ∃! rule, rule ∈ s.db.catalogue.rules ∧
      rule.costDefinitionId = d.costDefinitionId) ∧
    (∀ rule ∈ s.db.catalogue.rules, ∃ d ∈ s.db.catalogue.definitions, d.costDefinitionId = rule.costDefinitionId) ∧
    (t.db.catalogue.ensured = true → (∀ d ∈ t.db.catalogue.definitions, d ∈ s.db.catalogue.definitions) ∧
      ∀ rule ∈ t.db.catalogue.rules, rule.weightConfig ≠ none → rule ∈ s.db.catalogue.rules) := by
  obtain ⟨hok, hkept, -⟩ := run_effect ht h
  refine ⟨fun d hd d' hd' => hok.catalogue.registered.eq_of_shape hd hd', fun d => hok.catalogue.existsUnique_rule,
    fun rule => hok.catalogue.rule_definition, fun hensured => ⟨(hkept hensured).definitions, fun rule hrule hset => ?_⟩⟩
  obtain ⟨rule', hrule', -, -, hsame⟩ := (hkept hensured).rules rule hrule
  rw [← hsame hset]
  exact hrule'

def someIds : List String := ["d0", "d1", "d2", "d3", "d4", "d5", "d6", "d7", "d8", "d9", "d10", "d11", "d12", "d13"]

/-- Two starts of the application, the first lost in the middle of resolving. -/
def restartEvents : List PmEvent :=
  [.start, .ensureSchema, .resolveCostDefinitionIds (someIds.take 5), .start, .ensureSchema,
   .resolveCostDefinitionIds someIds, .start, .ensureSchema, .resolveCostDefinitionIds ["e0"]]

theorem restarts_run : ∃ s maps, run (pmStep (Fetch.first _)) .fresh restartEvents = .ok (s, maps) ∧
    s.db.catalogue.definitions.length = 14 ∧ maps.length = 2 := by
  obtain ⟨s, maps, h⟩ := exists_run (Fetch.first _) .fresh restartEvents
  have hsizes : (run (pmStep (Fetch.first _)) .fresh restartEvents).toOption.map
      (fun r => (r.1.db.catalogue.definitions.length, r.2.length)) = some (14, 2) := by
    decide +kernel
  rw [h] at hsizes
  obtain ⟨hdefinitions, hmaps⟩ := Prod.mk.inj (Option.some.inj hsizes)
  exact ⟨s, maps, h, hdefinitions, hmaps⟩

theorem restarts_ruled : ∃ s maps, run (pmStep (Fetch.first _)) .fresh restartEvents = .ok (s, maps) ∧
    s.db.catalogue.definitions.length = 14 ∧
    ∀ d ∈ s.db.catalogue.definitions, ∃! rule, rule ∈ s.db.catalogue.rules ∧
      rule.costDefinitionId = d.costDefinitionId := by
  obtain ⟨s, maps, h, hlength, -⟩ := restarts_run
  exact ⟨s, maps, h, hlength, (definitions_ruled (appOk_start (catalogueOk_empty false)) h).2.1⟩

/-- Every process of a database resolves the same id for a concept, that of the one definition of exactly its spec's
shape, and different concepts to different ids. -/
theorem processes_agree {db : PmDb} (hdb : CatalogueOk db.catalogue)
    (h : run (pmStep fetch) ⟨db, none⟩ es = .ok (s, maps)) :
    (∀ m ∈ maps, ∀ m' ∈ maps, ∀ concept, m.get? concept = m'.get? concept) ∧
    (∀ m ∈ maps, ∀ spec ∈ costDefinitionSpecs, ∃ d ∈ s.db.catalogue.definitions, shapeOf d = spec.toCostShape ∧
      m.get? spec.concept = some d.costDefinitionId) ∧
    ∀ m ∈ maps, ∀ concept concept' id, m.get? concept = some id → m.get? concept' = some id → concept = concept' := by
  obtain ⟨hok, -, hmaps⟩ := run_effect (appOk_start hdb) h
  refine ⟨fun m hm m' hm' => (hmaps m hm).2.unique hok.catalogue (hmaps m' hm').2, fun m hm => (hmaps m hm).2.found,
    fun m hm concept concept' id hid hid' => ?_⟩
  exact (hmaps m hm).2.injective hok.catalogue hid hid'

theorem restarts_agree : ∃ s maps, run (pmStep (Fetch.first _)) .fresh restartEvents = .ok (s, maps) ∧
    maps.length = 2 ∧ ∀ m ∈ maps, ∀ m' ∈ maps, ∀ concept, m.get? concept = m'.get? concept := by
  obtain ⟨s, maps, h, -, hlength⟩ := restarts_run
  exact ⟨s, maps, h, hlength, (processes_agree (catalogueOk_empty false) h).1⟩

end PriceEngine.MockPmApp
