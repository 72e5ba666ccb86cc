import PriceEngine.CostMigrations
import PriceEngine.Months
import PriceEngine.Run

/-!
# The processes of mock-pm-app

A process migrates the database, resolves the id of each concept, seeds the
tables that are empty and then adds bills and marks them paid for as long as it
runs. It may be lost at any point and started again. A step here is one
transaction; where it raises, nothing of it is kept and the process is gone.
-/

namespace PriceEngine.MockPmApp

/-! ## Apartments -/

/-- `_segment_combos`: every city, neighbourhood and property profile. -/
def segmentCombos : List (String × String × PropertyType × ℕ) :=
  [("Barcelona", ["Eixample", "Gràcia"]), ("Madrid", ["Centro", "Chamberí"]), ("Valencia", ["Ruzafa", "El Carmen"])].flatMap
    fun (city, neighborhoods) => neighborhoods.flatMap fun neighborhood =>
      [(.studio, 0), (.apartment, 1), (.apartment, 2)].map fun (propertyType, bedrooms) =>
        (city, neighborhood, propertyType, bedrooms)

def cityCode (city : String) : String :=
  if city = "Barcelona" then "BCN" else if city = "Madrid" then "MAD" else "VLC"

structure Apartment extends ApartmentSegmentRow where
  apartmentReference : String
  deriving DecidableEq

/-- What is drawn for an apartment. -/
structure ApartmentDraw where
  qualityTier : QualityTier
  rating : ℚ
  hasView : Bool
  hasParking : Bool

def combo (i : ℕ) : String × String × PropertyType × ℕ :=
  segmentCombos.getD (i % segmentCombos.length) ("", "", .studio, 0)

/-- `f"{_CITY_CODES_BY_NAME[city]}-{i + 1:03d}"`. -/
def apartmentReference (i : ℕ) : String :=
  String.ofList ((cityCode (combo i).1).toList ++ '-' :: zeroPad 3 (i + 1))

def buildApartmentPool (count : ℕ) (draws : ℕ → ApartmentDraw) : List Apartment :=
  (List.range count).map fun i =>
    let (city, neighborhood, propertyType, bedrooms) := combo i
    { apartmentId := apartmentReference i
      apartmentReference := apartmentReference i
      city, neighborhood, propertyType, bedrooms
      qualityTier := (draws i).qualityTier
      rating := (draws i).rating
      hasView := (draws i).hasView
      hasParking := (draws i).hasParking }

/-! ## Bills -/

structure ConceptProfile where
  concept : Concept
  vatRate : ℚ
  amountMin : ℚ
  amountMax : ℚ
  deriving DecidableEq

def conceptProfiles : List ConceptProfile :=
  [⟨.electricity, 21 / 100, 40, 180⟩, ⟨.water, 10 / 100, 15, 60⟩, ⟨.gas, 21 / 100, 20, 90⟩,
   ⟨.internet, 21 / 100, 30, 50⟩, ⟨.pmsSubscription, 21 / 100, 20, 100⟩, ⟨.otaFee, 21 / 100, 50, 400⟩,
   ⟨.channelManager, 21 / 100, 15, 40⟩, ⟨.cleaning, 10 / 100, 40, 120⟩, ⟨.laundry, 10 / 100, 15, 45⟩,
   ⟨.maintenance, 21 / 100, 20, 150⟩, ⟨.insurance, 0, 20, 60⟩, ⟨.communityFee, 0, 50, 150⟩]

/-- What is drawn for a bill: a concept, `random()` for its amount and a method of payment. -/
structure BillDraw where
  profile : ConceptProfile
  amount : ℚ
  method : PaymentMethod
  profile_mem : profile ∈ conceptProfiles
  amount_mem : 0 ≤ amount ∧ amount < 1
  deriving DecidableEq

/-- `rng.sample(CONCEPT_PROFILES, k=rng.randint(3, len(CONCEPT_PROFILES)))`. -/
structure BillSample where
  bills : List BillDraw
  nodup : (bills.map (·.profile)).Nodup
  three_le : 3 ≤ bills.length

/-- `round(rng.uniform(*profile.amount_range), 2)`. -/
def BillDraw.amountGross (draw : BillDraw) : ℚ :=
  pyRound (draw.profile.amountMin + (draw.profile.amountMax - draw.profile.amountMin) * draw.amount) 2

/-- `event_id` and `created_at` are filled in by the INSERT. -/
def buildLiveRow (apartment : Apartment) (draw : BillDraw) (costDefinitionId : String) (period : ℤ × ℤ)
    (eventId : String) (now : ℤ) : LineRow String :=
  { eventId
    apartmentId := apartment.apartmentId
    apartmentReference := apartment.apartmentReference
    cost := costDefinitionId
    billingPeriodStart := period.1
    billingPeriodEnd := period.2
    amountGross := draw.amountGross
    vatRate := draw.profile.vatRate
    dueDate := some (period.2 + 15)
    paymentDate := none
    paymentMethod := none
    paymentStatus := .pending
    source := .synthetic
    createdAt := now
    updatedAt := none }

def buildHistoricalRow (apartment : Apartment) (draw : BillDraw) (costDefinitionId : String) (period : ℤ × ℤ)
    (eventId : String) (now : ℤ) : LineRow String :=
  { buildLiveRow apartment draw costDefinitionId period eventId now with
    paymentDate := some (period.2 + 15)
    paymentMethod := some draw.method
    paymentStatus := .paid }

/-- The columns keep two decimals of an amount and three of a rate; the checks are those of the table. -/
def insertRow (rows : List (LineRow String)) (row : LineRow String) : Option (List (LineRow String)) :=
  let row := { row with amountGross := toNumeric 2 row.amountGross, vatRate := toNumeric 3 row.vatRate }
  if row.eventId ∉ rows.map (·.eventId) ∧ row.billingPeriodStart ≤ row.billingPeriodEnd ∧ 0 ≤ row.amountGross ∧
      row.amountGross < 10 ^ 8 ∧ row.vatRate ∈ [0, 4 / 100, 10 / 100, 21 / 100] then some (rows ++ [row])
  else none

def alreadyHasLineForPeriod (rows : List (LineRow String)) (apartmentId costDefinitionId : String)
    (periodStart : ℤ) : Bool :=
  rows.any fun row => row.apartmentId == apartmentId && row.cost == costDefinitionId &&
    row.billingPeriodStart == periodStart && row.source == .synthetic

/-- One live bill of this month, unless the apartment already has one of its concept. -/
def insertOne (conceptToId : Dict Concept String) (rows : List (LineRow String)) (apartment : Apartment)
    (draw : BillDraw) (eventId : String) (now : ℤ) : Option (List (LineRow String)) := do
  let period := currentMonthBounds (Instant.date now)
  let costDefinitionId ← conceptToId.get? draw.profile.concept
  if alreadyHasLineForPeriod rows apartment.apartmentId costDefinitionId period.1 then some rows
  else insertRow rows (buildLiveRow apartment draw costDefinitionId period eventId now)

/-- The pending row is drawn at random; there may be none. -/
def flipOnePendingToPaid (rows : List (LineRow String)) (eventId : String) (now : ℤ) : List (LineRow String) :=
  rows.map fun row =>
    if row.eventId = eventId ∧ row.paymentStatus = .pending ∧ row.source = .synthetic then
      { row with paymentStatus := .paid, paymentDate := some (Instant.date now), updatedAt := some now }
    else row

/-! ## The seed -/

structure Bill where
  apartment : Apartment
  period : ℤ × ℤ
  draw : BillDraw

/-- The sampled concepts of each apartment and month, the months counted back from today's. -/
def seedBills (apartments : List Apartment) (seedMonths : ℕ) (today : ℤ) (samples : String → ℕ → BillSample) :
    List Bill :=
  apartments.flatMap fun apartment => ((List.range seedMonths).map (· + 1)).flatMap fun monthsAgo =>
    (samples apartment.apartmentId monthsAgo).bills.map fun draw => ⟨apartment, monthBounds monthsAgo today, draw⟩

def insertBills (conceptToId : Dict Concept String) (now : ℤ) :
    List (LineRow String) → List String → List Bill → Option (List (LineRow String))
  | rows, _, [] => some rows
  | _, [], _ :: _ => none
  | rows, eventId :: uuids, bill :: bills => do
    let costDefinitionId ← conceptToId.get? bill.draw.profile.concept
    let rows ← insertRow rows
      (buildHistoricalRow bill.apartment bill.draw costDefinitionId bill.period eventId now)
    insertBills conceptToId now rows uuids bills

/-! ## Owner contracts -/

/-- What a crash leaves: the catalogue and the contracts as they were last committed. -/
structure ContractTables where
  catalogue : Catalogue
  rows : List OwnerContractRow
  deriving DecidableEq

/-- `ON CONFLICT (apartment_id) DO NOTHING`. -/
def insertContract (rows : List OwnerContractRow) (contract : OwnerContract) (costDefinitionId : String) :
    List OwnerContractRow :=
  if contract.apartmentId ∈ rows.map (·.apartmentId) then rows
  else rows ++ [⟨contract.apartmentId, contract.ownerId, costDefinitionId⟩]

/-- Each inserted definition is committed at once, with the contracts inserted so far; the rest at the end. The flag
says that the end was reached. -/
def seedOwnerContracts (fetch : Fetch CostDefinitionRow) :
    ContractTables → ContractTables → List String → List OwnerContract → ContractTables × Bool
  | _, working, _, [] => (working, true)
  | durable, working, uuids, contract :: contracts =>
    match resolveOwnerCommissionCostDefinitionId fetch ⟨working.catalogue, uuids⟩ contract.commissionBase
      contract.commissionPct with
    | none => (durable, false)
    | some (t, id, inserted) =>
      seedOwnerContracts fetch (if inserted then ⟨t.catalogue, working.rows⟩ else durable)
        ⟨t.catalogue, insertContract working.rows contract id⟩ t.uuids contracts

/-! ## The machine -/

structure PmDb where
  catalogue : Catalogue
  contracts : OwnerContracts
  lines : PaymentLines
  deriving DecidableEq

/-- The database, and the map that the process has resolved; a new process has none. -/
structure PmApp where
  db : PmDb
  conceptToId : Option (Dict Concept String)
  deriving DecidableEq

inductive PmEvent
  | start
  | ensureSchema
  | migrateOwnerContracts (uuids : List String)
  | resolveCostDefinitionIds (uuids : List String)
  | ensureWeightedAllocationConfig (apartments : List Apartment)
  | migratePaymentLines (now : ℤ) (uuids : List String)
  | seed (now : ℤ) (count : ℕ) (draws : ℕ → ApartmentDraw) (seedMonths : ℕ) (samples : String → ℕ → BillSample)
      (uuids : List String)
  | seedOwnerContracts (contracts : List OwnerContract) (uuids : List String)
  | insertOne (now : ℤ) (apartment : Apartment) (draw : BillDraw) (eventId : String)
  | flipOnePendingToPaid (now : ℤ) (eventId : String)

section

variable (fetch : Fetch CostDefinitionRow)

/-- The transaction of an event, with the map that it resolves; `none` where it raises. The schema comes before
everything else, and the map before the seed and the bills. -/
def transaction (s : PmApp) : PmEvent → Option (PmApp × List (Dict Concept String))
  | .start => some ({ s with conceptToId := none }, [])
  | .ensureSchema => (ensureSchema s.db.catalogue).map fun c => ({ s with db := { s.db with catalogue := c } }, [])
  | .migrateOwnerContracts uuids =>
    match s.db.catalogue.ensured, s.db.contracts with
    | false, _ => none
    | true, .current _ => some (s, [])
    | true, .legacy rows =>
      (migrateOwnerContractsToCostDefinitions fetch ⟨s.db.catalogue, uuids⟩ rows).map fun (t, rows) =>
        ({ s with db := { s.db with catalogue := t.catalogue, contracts := .current rows } }, [])
  | .resolveCostDefinitionIds uuids =>
    match s.db.catalogue.ensured with
    | false => none
    | true => (resolveCostDefinitionIds fetch ⟨s.db.catalogue, uuids⟩).map fun (t, conceptToId) =>
      ({ s with db := { s.db with catalogue := t.catalogue }, conceptToId := some conceptToId }, [conceptToId])
  | .ensureWeightedAllocationConfig apartments =>
    (s.conceptToId.bind (·.get? .officeRent)).map fun id =>
      ({ s with db := { s.db with catalogue :=
          ensureWeightedAllocationConfig s.db.catalogue id (apartments.map (·.apartmentId)) } }, [])
  | .migratePaymentLines now uuids =>
    match s.db.catalogue.ensured, s.db.lines with
    | false, _ => none
    | true, .current _ => some (s, [])
    | true, .legacy rows =>
      (migratePaymentLinesToCostDefinitions fetch now ⟨s.db.catalogue, uuids⟩ rows).map fun (t, rows) =>
        ({ s with db := { s.db with catalogue := t.catalogue, lines := .current rows } }, [])
  | .seed now count draws seedMonths samples uuids =>
    match s.conceptToId, s.db.lines with
    | none, _ => none
    | some _, .legacy _ => none
    | some _, .current (_ :: _) => some (s, [])
    | some conceptToId, .current [] =>
      (insertBills conceptToId now [] uuids
        (seedBills (buildApartmentPool count draws) seedMonths (Instant.date now) samples)).map fun rows =>
          ({ s with db := { s.db with lines := .current rows } }, [])
  | .seedOwnerContracts contracts uuids =>
    match s.db.catalogue.ensured, s.db.contracts with
    | true, .current [] =>
      let (tables, finished) :=
        seedOwnerContracts fetch ⟨s.db.catalogue, []⟩ ⟨s.db.catalogue, []⟩ uuids contracts
      some ({ db := { s.db with catalogue := tables.catalogue, contracts := .current tables.rows }
              conceptToId := if finished then s.conceptToId else none }, [])
    | true, .current (_ :: _) => some (s, [])
    | _, _ => none
  | .insertOne now apartment draw eventId =>
    match s.conceptToId, s.db.lines with
    | some conceptToId, .current rows =>
      (insertOne conceptToId rows apartment draw eventId now).map fun rows =>
        ({ s with db := { s.db with lines := .current rows } }, [])
    | _, _ => none
  | .flipOnePendingToPaid now eventId =>
    match s.db.lines with
    | .current rows => some ({ s with db := { s.db with lines := .current (flipOnePendingToPaid rows eventId now) } }, [])
    | .legacy _ => none

/-- A transaction that raises is rolled back, and the process ends with it. -/
def pmStep (s : PmApp) (e : PmEvent) : Except PyError (PmApp × List (Dict Concept String)) :=
  .ok ((transaction fetch s e).getD ({ s with conceptToId := none }, []))

end

/-- A database from before the cost tables. -/
def PmApp.installed (contracts : OwnerContracts) (lines : PaymentLines) : PmApp :=
  ⟨⟨⟨false, [], []⟩, contracts, lines⟩, none⟩

/-- An empty database. -/
def PmApp.fresh : PmApp := .installed (.current []) (.current [])

end PriceEngine.MockPmApp
