import PriceEngine.StrategyOrder
import PriceEngine.Value
import PriceEngine.VersionedTable

/-!
# The table of pricing strategies

`new_strategy_version` reads the row of an apartment's highest version, applies
the changes it was given and inserts the next version, in one transaction; the
table has a unique constraint on apartment and version and is only inserted
into. The first version comes from the seed or from the migration of the
apartment's old columns.
-/

namespace PriceEngine.MockPmApp

/-! ## The columns -/

/-- `NUMERIC(p, d)`: rounded to `d` decimals, ties away from zero. -/
def toNumeric (d : ℕ) (x : ℚ) : ℚ :=
  (if 0 ≤ x then ⌊x * 10 ^ d + 1 / 2⌋ else -⌊-x * 10 ^ d + 1 / 2⌋ : ℤ) / 10 ^ d

theorem floor_add_half (k : ℤ) : ⌊(k : ℚ) + 1 / 2⌋ = k := by
  rw [Int.floor_intCast_add]
  norm_num

theorem toNumeric_self (d : ℕ) (k : ℤ) : toNumeric d (k / 10 ^ d) = k / 10 ^ d := by
  have hpow : (10 : ℚ) ^ d ≠ 0 := by positivity
  have hneg : -((k : ℚ) / 10 ^ d) * 10 ^ d = ((-k : ℤ) : ℚ) := by
    push_cast
    field_simp
  unfold toNumeric
  rw [div_mul_cancel₀ _ hpow, hneg, floor_add_half, floor_add_half, neg_neg, ite_self]

@[simp] theorem toNumeric_toNumeric (d : ℕ) (x : ℚ) : toNumeric d (toNumeric d x) = toNumeric d x :=
  toNumeric_self d _

/-- A row of `pricing_strategies`, unless one of the CHECK constraints refuses it. -/
def strategyRow (apartmentId : String) (version : ℤ) (targetMargin competitivenessDiscount : ℚ)
    (floorPolicyDefault : FloorPolicy) : Option PricingStrategyRow :=
  let targetMargin := toNumeric 4 targetMargin
  let competitivenessDiscount := toNumeric 4 competitivenessDiscount
  if 1 ≤ version ∧ (0 ≤ targetMargin ∧ targetMargin < 1) ∧ 0 ≤ competitivenessDiscount ∧ competitivenessDiscount < 1
  then some { apartmentId, version, targetMargin, competitivenessDiscount, floorPolicyDefault }
  else none

/-- `**changes`. -/
structure StrategyChanges where
  targetMargin : Option ℚ := none
  competitivenessDiscount : Option ℚ := none
  floorPolicyDefault : Option FloorPolicy := none
  deriving DecidableEq

/-- What the seed and the migration know of an apartment; the floor policy is the column's default. -/
structure FirstStrategy where
  apartmentId : String
  targetMargin : ℚ := 5 / 100
  competitivenessDiscount : ℚ := 5 / 100
  deriving DecidableEq

def firstVersion (first : FirstStrategy) : Option PricingStrategyRow :=
  strategyRow first.apartmentId 1 first.targetMargin first.competitivenessDiscount .soft

def nextVersion (current : PricingStrategyRow) (changes : StrategyChanges) : Option PricingStrategyRow :=
  strategyRow current.apartmentId (current.version + 1) (changes.targetMargin.getD current.targetMargin)
    (changes.competitivenessDiscount.getD current.competitivenessDiscount)
    (changes.floorPolicyDefault.getD current.floorPolicyDefault)

theorem strategyRow_eq_some {apartmentId : String} {version : ℤ} {targetMargin competitivenessDiscount : ℚ}
    {floorPolicyDefault : FloorPolicy} {row : PricingStrategyRow}
    (h : strategyRow apartmentId version targetMargin competitivenessDiscount floorPolicyDefault = some row) :
    row.apartmentId = apartmentId ∧ row.version = version ∧ row.targetMargin = toNumeric 4 targetMargin ∧
      row.competitivenessDiscount = toNumeric 4 competitivenessDiscount ∧
      row.floorPolicyDefault = floorPolicyDefault ∧ row.targetMargin < 1 := by
  unfold strategyRow at h
  dsimp only at h
  split_ifs at h with hcheck
  obtain rfl := Option.some.inj h
  exact ⟨rfl, rfl, rfl, rfl, rfl, hcheck.2.1.2⟩

/-- `pricing_strategies`, keyed by apartment. -/
def pricingStrategies : Versioning String PricingStrategyRow StrategyChanges FirstStrategy where
  key := (·.apartmentId)
  version := (·.version)
  first := firstVersion
  next := nextVersion
  first_version := fun h => (strategyRow_eq_some h).2.1
  next_key := fun h => (strategyRow_eq_some h).1
  next_version := fun h => (strategyRow_eq_some h).2.1

abbrev StrategyTable := VersionedTable PricingStrategyRow StrategyChanges

abbrev StrategyEvent := TableEvent String StrategyChanges FirstStrategy

abbrev StrategyCall := Call String PricingStrategyRow StrategyChanges FirstStrategy

/-- One statement of a session that runs `new_strategy_version`, of the seed or of the migration. -/
def strategyStep : StrategyTable → StrategyEvent → Except PyError (StrategyTable × List StrategyCall) :=
  pricingStrategies.tableStep

/-! ## Concurrent calls -/

variable {es : List StrategyEvent} {s s' : StrategyTable} {calls : List StrategyCall}

/-- What is in the table has the scale of its columns, so carrying it over changes nothing. -/
def Stored (row : PricingStrategyRow) : Prop :=
  toNumeric 4 row.targetMargin = row.targetMargin ∧
    toNumeric 4 row.competitivenessDiscount = row.competitivenessDiscount

theorem stored_strategyRow {apartmentId : String} {version : ℤ} {targetMargin competitivenessDiscount : ℚ}
    {floorPolicyDefault : FloorPolicy} {row : PricingStrategyRow}
    (h : strategyRow apartmentId version targetMargin competitivenessDiscount floorPolicyDefault = some row) :
    Stored row := by
  obtain ⟨-, -, hmargin, hdiscount, -⟩ := strategyRow_eq_some h
  rw [Stored, hmargin, hdiscount]
  simp

theorem run_stored (h : run strategyStep VersionedTable.start es = .ok (s, calls)) : ∀ row ∈ s.rows, Stored row :=
  Versioning.run_forall (v := pricingStrategies) (fun _ _ hrow => stored_strategyRow hrow)
    (fun _ _ _ hrow => stored_strategyRow hrow) h

/-- The columns that were passed are written at their scale, the others are those of the version right before. -/
structure Succeeds (changes : StrategyChanges) (current row : PricingStrategyRow) : Prop where
  apartmentId : row.apartmentId = current.apartmentId
  version : row.version = current.version + 1
  targetMargin : row.targetMargin = (changes.targetMargin.map (toNumeric 4)).getD current.targetMargin
  competitivenessDiscount : row.competitivenessDiscount =
    (changes.competitivenessDiscount.map (toNumeric 4)).getD current.competitivenessDiscount
  floorPolicyDefault : row.floorPolicyDefault = changes.floorPolicyDefault.getD current.floorPolicyDefault

theorem toNumeric_getD {passed : Option ℚ} {carried : ℚ} (h : toNumeric 4 carried = carried) :
    toNumeric 4 (passed.getD carried) = (passed.map (toNumeric 4)).getD carried := by
  cases passed with
  | none => exact h
  | some x => rfl

theorem nextVersion_succeeds {current row : PricingStrategyRow} {changes : StrategyChanges} (hstored : Stored current)
    (h : nextVersion current changes = some row) : Succeeds changes current row := by
  obtain ⟨hid, hversion, hmargin, hdiscount, hpolicy, -⟩ := strategyRow_eq_some h
  exact
    { apartmentId := hid
      version := hversion
      targetMargin := hmargin.trans (toNumeric_getD hstored.1)
      competitivenessDiscount := hdiscount.trans (toNumeric_getD hstored.2)
      floorPolicyDefault := hpolicy }

/-- Whatever the order in which concurrent sessions run their statements, the calls that complete have the effect and
the results they have one after another in the order of their commits, and the rows of the table are theirs; the
versions of an apartment are 1, 2, … with none missing, and each is the version right before it with the changes that
were passed. -/
theorem strategy_calls_serialize (h : run strategyStep VersionedTable.start es = .ok (s, calls)) :
    run strategyStep VersionedTable.start (calls.flatMap Call.events) = .ok (⟨s.rows, Dict.empty⟩, calls) ∧
    s.rows = calls.map Call.row ∧
    (∀ a, Numbered (fun row => row.version) (s.rows.filter fun row => row.apartmentId = a)) ∧
    ∀ a changes row, Call.next a changes row ∈ calls →
      ∃ current ∈ s.rows, current.apartmentId = a ∧ Succeeds changes current row := by
  refine ⟨Versioning.serializable (v := pricingStrategies) h,
    Versioning.run_rows (v := pricingStrategies) Versioning.consistent_start h,
    (Versioning.run_consistent (v := pricingStrategies) h).numbered, fun a changes row hcall => ?_⟩
  obtain ⟨-, current, hcurrent, hid, hnext⟩ := Versioning.run_calls (v := pricingStrategies) h a changes row hcall
  exact ⟨current, hcurrent, hid, nextVersion_succeeds (run_stored h current hcurrent) hnext⟩

def seededVersion : PricingStrategyRow := ⟨⟨1, 1 / 5, 1 / 20, .soft⟩, "a1"⟩

def raisedVersion : PricingStrategyRow := ⟨⟨2, 3 / 10, 1 / 20, .soft⟩, "a1"⟩

def marginChange : StrategyChanges := { targetMargin := some (30 / 100) }

def discountChange : StrategyChanges := { competitivenessDiscount := some (10 / 100) }

/-- Both sessions read the first version. -/
def readEvents : List StrategyEvent := [.first ⟨"a1", 20 / 100, 5 / 100⟩, .select 1 "a1", .select 2 "a1"]

/-- The second waits for the first, which commits. -/
def overtakingEvents : List StrategyEvent := [.insert 1 marginChange, .insert 2 discountChange, .commit 1]

def raceEvents : List StrategyEvent := readEvents ++ overtakingEvents

def retryEvents : List StrategyEvent := [.insert 2 discountChange, .select 2 "a1", .insert 2 discountChange, .commit 2]

def readTable : StrategyTable :=
  ⟨[seededVersion], (Dict.empty.put 1 (.reading seededVersion)).put 2 (.reading seededVersion)⟩

def overtakenTable : StrategyTable := ⟨[seededVersion, raisedVersion], Dict.empty.put 2 (.reading seededVersion)⟩

def seedCall : StrategyCall := .first ⟨"a1", 20 / 100, 5 / 100⟩ seededVersion

def raiseCall : StrategyCall := .next "a1" marginChange raisedVersion

theorem race_reads : (run strategyStep VersionedTable.start readEvents).toOption = some (readTable, [seedCall]) := by
  decide +kernel

theorem race_overtakes : (run strategyStep VersionedTable.start raceEvents).toOption =
    some (overtakenTable, [seedCall, raiseCall]) := by
  decide +kernel

theorem race_serializes : ∃ s calls, run strategyStep VersionedTable.start (raceEvents ++ retryEvents) = .ok (s, calls) ∧
    run strategyStep VersionedTable.start (calls.flatMap Call.events) = .ok (⟨s.rows, Dict.empty⟩, calls) ∧
    ∃ current ∈ s.rows, Succeeds discountChange current ⟨⟨3, 3 / 10, 1 / 10, .soft⟩, "a1"⟩ := by
  have hrun : run strategyStep VersionedTable.start (raceEvents ++ retryEvents) = .ok
      (⟨[seededVersion, raisedVersion, ⟨⟨3, 3 / 10, 1 / 10, .soft⟩, "a1"⟩], Dict.empty⟩,
        [seedCall, raiseCall, .next "a1" discountChange ⟨⟨3, 3 / 10, 1 / 10, .soft⟩, "a1"⟩]) :=
    toOption_eq_some.mp (by decide +kernel)
  obtain ⟨hserial, -, -, hcalls⟩ := strategy_calls_serialize hrun
  obtain ⟨current, hcurrent, -, hsucceeds⟩ := hcalls "a1" discountChange ⟨⟨3, 3 / 10, 1 / 10, .soft⟩, "a1"⟩ (by simp)
  exact ⟨_, _, hrun, hserial, current, hcurrent, hsucceeds⟩

/-- A call that the unique constraint refuses was overtaken: between its two statements another call for the apartment
committed the version it was to insert. -/
theorem refused_call_overtaken {p q : List StrategyEvent} {a : String} {i : ℕ} {current row : PricingStrategyRow}
    {changes : StrategyChanges} {before : List StrategyCall}
    (h : run strategyStep VersionedTable.start p = .ok (s, before))
    (hread : pricingStrategies.latest s.rows a = some current) (hq : run strategyStep s q = .ok (s', calls))
    (hsession : s'.sessions.get? i = some (.reading current)) (hnext : nextVersion current changes = some row)
    (hrefused : strategyStep s' (.insert i changes) = .ok ({ s' with sessions := s'.sessions.remove i }, [])) :
    ∃ call ∈ calls, call.row.apartmentId = a ∧ call.row.version = current.version + 1 := by
  have htaken : pricingStrategies.taken s'.rows row = true :=
    Versioning.insert_refused (v := pricingStrategies) hsession hnext hrefused
  obtain ⟨call, hcall, hkey, hversion⟩ :=
    Versioning.overtaken (Versioning.run_consistent (v := pricingStrategies) h) hread hq hnext htaken
  exact ⟨call, hcall, hkey, hversion.trans (pricingStrategies.next_version hnext)⟩

theorem race_refused : ∃ call ∈ [raiseCall], call.row.apartmentId = "a1" ∧ call.row.version = 2 := by
  have hovertaken : (run strategyStep readTable overtakingEvents).toOption = some (overtakenTable, [raiseCall]) := by
    decide +kernel
  have hrefused : (strategyStep overtakenTable (.insert 2 discountChange)).toOption =
      some ({ overtakenTable with sessions := overtakenTable.sessions.remove 2 }, []) := by
    decide +kernel
  have hnext : nextVersion seededVersion discountChange = some ⟨⟨2, 1 / 5, 1 / 10, .soft⟩, "a1"⟩ := by
    decide +kernel
  exact refused_call_overtaken (toOption_eq_some.mp race_reads) rfl (toOption_eq_some.mp hovertaken) rfl hnext
    (toOption_eq_some.mp hrefused)

/-! ## What Stage A resolves -/

def shuffledVersions : List (Env × PipelineEvent) :=
  jobFrom 0 [.configure "a1" (.apartmentConfig (.strategy raisedVersion)),
    .configure "a1" (.apartmentConfig (.strategy seededVersion)),
    .configure "a1" (.apartmentConfig (.strategy raisedVersion))]

/-- Once every committed row of an apartment has been delivered to Stage A, in whatever order and however often each,
the strategy it resolves is the row that was committed last. -/
theorem stageA_resolves_last {s : StrategyTable} {es : List StrategyEvent} {calls : List StrategyCall}
    (h : run strategyStep VersionedTable.start es = .ok (s, calls)) {fs : List (Env × PipelineEvent)} {t : Pipeline}
    {os : List Emitted} (ht : run Pipeline.step {} fs = .ok (t, os)) {a : String}
    (hdelivered : ∀ row, row ∈ strategyRows a fs ↔ row ∈ s.rows ∧ row.apartmentId = a) :
    (t.chains a).costEnrichment.strategies.get? a =
      ((s.rows.filter fun row => row.apartmentId = a).getLast?).map (·.toPricingStrategy) := by
  have hnumbered : Numbered (fun row : PricingStrategyRow => row.version)
      (s.rows.filter fun row => row.apartmentId = a) :=
    (Versioning.run_consistent (v := pricingStrategies) h).numbered a
  have hresolves := run_resolves ht a
  cases hget : (t.chains a).costEnrichment.strategies.get? a with
  | none =>
    rw [hget] at hresolves
    have hnil : strategyRows a fs = [] := hresolves
    have hempty : (s.rows.filter fun row => row.apartmentId = a) = [] := by
      refine List.filter_eq_nil_iff.mpr fun row hrow hid => ?_
      have hmem := (hdelivered row).mpr ⟨hrow, of_decide_eq_true hid⟩
      rw [hnil] at hmem
      cases hmem
    rw [hempty]
    rfl
  | some strategy =>
    rw [hget] at hresolves
    obtain ⟨row, hrow, rfl, hmax⟩ := hresolves
    have hin : row ∈ s.rows.filter fun row => row.apartmentId = a := by
      simpa using (hdelivered row).mp hrow
    rw [hnumbered.last_of_no_next hin fun r hr hnext => ?_]
    · rfl
    · have hle := hmax r ((hdelivered r).mpr (by simpa using hr))
      omega

theorem race_delivered_shuffled : ∃ s calls t os, run strategyStep VersionedTable.start raceEvents = .ok (s, calls) ∧
    run Pipeline.step {} shuffledVersions = .ok (t, os) ∧
    (t.chains "a1").costEnrichment.strategies.get? "a1" = some raisedVersion.toPricingStrategy := by
  refine ⟨_, _, _, _, toOption_eq_some.mp race_overtakes, rfl, ?_⟩
  have hrows : strategyRows "a1" shuffledVersions = [raisedVersion, seededVersion, raisedVersion] := rfl
  exact stageA_resolves_last (toOption_eq_some.mp race_overtakes) rfl fun row => by
    rw [hrows]
    simp only [overtakenTable, List.mem_cons, List.not_mem_nil, or_false]
    refine ⟨?_, fun h => .inr h.1⟩
    rintro (rfl | rfl | rfl)
    · exact ⟨.inr rfl, rfl⟩
    · exact ⟨.inl rfl, rfl⟩
    · exact ⟨.inr rfl, rfl⟩

end PriceEngine.MockPmApp
