import PriceEngine.Decision

/-!
# Stage B: the join of costs and market

One segment's keyed state: the apartments and the nights known in it, the
deadline of each, and the day each (apartment, night) pair fell to its floor.
A cost event reprices every known night of one apartment, a market event every
known apartment of one night. `acceptCost` and `acceptMarket` are the writes a
handler makes before it fans out; `reprice` is the fan-out of both.
-/

namespace PriceEngine

/-! ## Helpers -/

def isSafeToOverwrite (candidateUpdatedAt : Instant) : Option Instant → Bool
  | none => true
  | some existingUpdatedAt => candidateUpdatedAt ≥ existingUpdatedAt

def hoja1MaxEntriesPerSegment : ℕ := 500

def isOverCapacity (currentSize : ℕ) (cap : ℕ := hoja1MaxEntriesPerSegment) : Bool := currentSize > cap

/-- `min(entries, key=…)`: the first entry with the smallest `updated_at`. -/
def oldestKeyByUpdatedAt (entries : Dict String CostAggregate) : Option String :=
  (entries.entries.minOn? fun e => e.2.updatedAt).map (·.1)

def expiredNightKeys (nights : Dict Date NightSnapshot) (today : Date) : List Date :=
  nights.keys.filter fun targetDate => targetDate < today

def freshnessThresholdMs : ℤ := 48 * 60 * 60 * 1000

def nextDeadlineMillis (now : Instant) : ℤ := Int.tdiv now 1000 + freshnessThresholdMs

def expiredKeys {K : Type*} (deadlines : Dict K ℤ) (firedAtMillis : ℤ) : List K :=
  (deadlines.entries.filter fun e => e.2 == firedAtMillis).map (·.1)

def startsWith (s start : String) : Bool := start.toList.isPrefixOf s.toList

def endsWith (s ending : String) : Bool := ending.toList.isSuffixOf s.toList

def floorBreachKey (apartmentId : String) (targetDate : Date) : String :=
  apartmentId ++ "|" ++ isoformat targetDate

def rstripSlash (s : String) : String :=
  String.ofList (s.toList.reverse.dropWhile (· == '/')).reverse

/-! ## State -/

/-- Nights are keyed by their date, whose ISO text is the key in the source. -/
structure StageB where
  apartments : Dict String CostAggregate := .empty
  nights : Dict Date NightSnapshot := .empty
  apartmentDeadlines : Dict String ℤ := .empty
  nightDeadlines : Dict Date ℤ := .empty
  floorBreachSince : Dict String Date := .empty
  timers : List ℤ := []

/-- What an event handler draws from outside: successive clock readings and fresh ids. -/
structure Env where
  now : ℕ → Instant
  uuid4 : ℕ → String

def registerTimer (deadlineMillis : ℤ) (timers : List ℤ) : List ℤ :=
  if deadlineMillis ∈ timers then timers else timers ++ [deadlineMillis]

/-! ## Fan-out -/

structure Job where
  apartmentId : String
  cost : CostAggregate
  night : NightSnapshot
  targetDate : Date

def writeStreak (key : String) (newSince : Option Date) (streaks : Dict String Date) : Dict String Date :=
  match newSince with
  | none => streaks.remove key
  | some since => streaks.put key since

/-- Prices the jobs in order; the `i`-th decision uses reading `clock + i`. -/
def reprice (env : Env) (clock : ℕ) (streaks : Dict String Date) :
    List Job → Except PricingError (Dict String Date × List PriceDecision)
  | [] => .ok (streaks, [])
  | job :: jobs => do
    let key := floorBreachKey job.apartmentId job.targetDate
    let (decision, newSince) ← buildPriceDecision (env.uuid4 clock) (env.now clock) job.cost job.night
      job.targetDate (streaks.get? key)
    let (streaks, decisions) ← reprice env (clock + 1) (writeStreak key newSince streaks) jobs
    .ok (streaks, decision :: decisions)

def repriceAll (env : Env) (clock : ℕ) (s : StageB) (jobs : List Job) :
    Except PricingError (StageB × List PriceDecision) := do
  let (streaks, decisions) ← reprice env clock s.floorBreachSince jobs
  .ok ({ s with floorBreachSince := streaks }, decisions)

/-! ## Cost side -/

def evict (oldest : String) (s : StageB) : StageB :=
  { s with
    apartments := s.apartments.remove oldest
    apartmentDeadlines := s.apartmentDeadlines.remove oldest
    floorBreachSince := s.floorBreachSince.removeWhere fun key => startsWith key (oldest ++ "|") }

def evictOldest (s : StageB) : StageB :=
  match oldestKeyByUpdatedAt s.apartments with
  | none => s
  | some oldest => evict oldest s

def putApartment (env : Env) (s : StageB) (value : CostAggregate) : StageB :=
  let deadlineMillis := nextDeadlineMillis (env.now 0)
  { s with
    apartments := s.apartments.put value.apartmentId value
    apartmentDeadlines := s.apartmentDeadlines.put value.apartmentId deadlineMillis
    timers := registerTimer deadlineMillis s.timers }

def acceptCost (env : Env) (s : StageB) (value : CostAggregate) : StageB :=
  let existing := s.apartments.get? value.apartmentId
  let s := if isOverCapacity (s.apartments.size + if existing.isSome then 0 else 1) then evictOldest s else s
  putApartment env s value

def costJobs (s : StageB) (value : CostAggregate) : List Job :=
  (s.nights.entries.filter fun e => e.2.blended.isSome).map fun e =>
    { apartmentId := value.apartmentId, cost := value, night := e.2, targetDate := e.1 }

def processElement1 (env : Env) (s : StageB) (value : CostAggregate) :
    Except PricingError (StageB × List PriceDecision) :=
  let existing := s.apartments.get? value.apartmentId
  if !isSafeToOverwrite value.updatedAt (existing.map (·.updatedAt)) then .ok (s, [])
  else
    let s := acceptCost env s value
    repriceAll env 1 s (costJobs s value)

/-! ## Market side -/

def snapshotOf (value : MarketPrice) : MarketSnapshot :=
  { marketArea := rstripSlash (value.marketArea.city ++ "/" ++ value.marketArea.neighborhood.getD "")
    avgNightlyRateEur := value.avgNightlyRate
    occupancyRate := value.marketContext.occupancyRate
    sampleSize := some value.marketContext.sampleSize
    collectedAt := value.collectedAt }

/-- The sub-snapshot an event of `platform` replaces. -/
def previousSnapshot (existing : Option NightSnapshot) (platform : Option Platform) :
    Option MarketSnapshot :=
  existing.bind fun night =>
    match platform with
    | none => night.blended
    | some platform => night.channels.get? platform

def updateNight (existing : Option NightSnapshot) (platform : Option Platform) (snapshot : MarketSnapshot) :
    NightSnapshot :=
  let channels := (existing.map (·.channels)).getD .empty
  match platform with
  | none => { blended := some snapshot, channels := channels }
  | some platform =>
    { blended := existing.bind (·.blended), channels := channels.put platform snapshot }

def dropNight (s : StageB) (targetDate : Date) : StageB :=
  { s with
    nights := s.nights.remove targetDate
    nightDeadlines := s.nightDeadlines.remove targetDate
    floorBreachSince :=
      s.floorBreachSince.removeWhere fun key => endsWith key ("|" ++ isoformat targetDate) }

def expireNights (today : Date) (s : StageB) : StageB :=
  (expiredNightKeys s.nights today).foldl dropNight s

def putNight (env : Env) (s : StageB) (targetDate : Date) (night : NightSnapshot) : StageB :=
  let deadlineMillis := nextDeadlineMillis (env.now 2)
  { s with
    nights := s.nights.put targetDate night
    nightDeadlines := s.nightDeadlines.put targetDate deadlineMillis
    timers := registerTimer deadlineMillis s.timers }

def acceptMarket (env : Env) (s : StageB) (value : MarketPrice) : StageB :=
  let existing := s.nights.get? value.targetDate
  putNight env (expireNights (Instant.date (env.now 1)) s) value.targetDate
    (updateNight existing value.marketContext.platform (snapshotOf value))

def marketJobs (s : StageB) (targetDate : Date) (night : NightSnapshot) : List Job :=
  s.apartments.entries.map fun e =>
    { apartmentId := e.1, cost := e.2, night := night, targetDate := targetDate }

def processElement2 (env : Env) (s : StageB) (value : MarketPrice) :
    Except PricingError (StageB × List PriceDecision) :=
  if value.targetDate < Instant.date (env.now 0) then .ok (s, [])
  else
    let platform := value.marketContext.platform
    let snapshot := snapshotOf value
    let existing := s.nights.get? value.targetDate
    let previous := previousSnapshot existing platform
    if !isSafeToOverwrite snapshot.collectedAt (previous.map (·.collectedAt)) then .ok (s, [])
    else
      let night := updateNight existing platform snapshot
      let s := acceptMarket env s value
      if night.blended.isNone then .ok (s, [])
      else repriceAll env 3 s (marketJobs s value.targetDate night)

/-! ## Timers and runs -/

inductive StaleKey
  | apartment (apartmentId : String)
  | night (targetDate : Date)
  deriving DecidableEq

def onTimer (s : StageB) (timestamp : ℤ) : List StaleKey :=
  (expiredKeys s.apartmentDeadlines timestamp).map .apartment ++
    (expiredKeys s.nightDeadlines timestamp).map .night

inductive StageBEvent
  | cost (value : CostAggregate)
  | market (value : MarketPrice)

def StageB.step (s : StageB) (e : Env × StageBEvent) : Except PricingError (StageB × List PriceDecision) :=
  match e.2 with
  | .cost value => processElement1 e.1 s value
  | .market value => processElement2 e.1 s value

end PriceEngine
