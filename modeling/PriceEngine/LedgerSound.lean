import PriceEngine.MigratedRows

/-!
# One bill a month

Nothing in `payment_lines` forbids a second bill for the same month. That there
is none comes from the application: it seeds only an empty table, each concept
of a month once, and looks before it adds a live bill. Both go by the id of the
cost definition, so it takes that every process resolves the same ids. What an
apartment is billed for a month is therefore bounded for ever.
-/

namespace PriceEngine.MockPmApp

variable {fetch : Fetch CostDefinitionRow}

/-! ## Apartments -/

theorem cityCode_length (city : String) : (cityCode city).toList.length = 3 := by
  unfold cityCode
  split_ifs <;> rfl

theorem apartmentReference_injective : Function.Injective apartmentReference := by
  intro i j h
  have hchars := String.ofList_injective h
  have hlength : (cityCode (combo i).1).toList.length = (cityCode (combo j).1).toList.length := by
    rw [cityCode_length, cityCode_length]
  have htail := (List.append_inj hchars hlength).2
  have hpad := zeroPad_injective 3 (List.cons.inj htail).2
  omega

theorem buildApartmentPool_nodup (count : ℕ) (draws : ℕ → ApartmentDraw) :
    ((buildApartmentPool count draws).map (·.apartmentId)).Nodup := by
  unfold buildApartmentPool
  rw [List.map_map]
  exact List.Nodup.map apartmentReference_injective List.nodup_range

/-! ## Amounts -/

theorem toNumeric_amountGross (draw : BillDraw) : toNumeric 2 draw.amountGross = draw.amountGross := by
  unfold BillDraw.amountGross
  exact toNumeric_self 2 _

/-- The amounts of a profile lie in its range, after rounding too. -/
theorem amountGross_mem (draw : BillDraw) :
    draw.profile.amountMin ≤ draw.amountGross ∧ draw.amountGross ≤ draw.profile.amountMax := by
  have hranges : ∀ p ∈ conceptProfiles, pyRound p.amountMin 2 = p.amountMin ∧ pyRound p.amountMax 2 = p.amountMax ∧
      p.amountMin ≤ p.amountMax := by
    decide +kernel
  obtain ⟨hmin, hmax, hle⟩ := hranges draw.profile draw.profile_mem
  obtain ⟨hlow, hhigh⟩ := draw.amount_mem
  have hwidth : 0 ≤ draw.profile.amountMax - draw.profile.amountMin := sub_nonneg.mpr hle
  unfold BillDraw.amountGross
  constructor
  · rw [← hmin]
    refine pyRound_mono ?_ 2
    rw [hmin]
    nlinarith
  · rw [← hmax]
    refine pyRound_mono ?_ 2
    rw [hmax]
    nlinarith

/-! ## Rows -/

def IsBilled (row : LineRow String) : Prop :=
  row.paymentStatus = .pending ∧ row.paymentDate = none ∨ row.paymentStatus = .paid ∧ row.paymentDate ≠ none

/-- A row as the application writes it: of a month, of a concept it bills, in the range of its amounts. -/
structure BillOk (c : Catalogue) (row : LineRow String) : Prop where
  profile : ∃ p ∈ conceptProfiles, p.amountMin ≤ row.amountGross ∧ row.amountGross ≤ p.amountMax ∧
    ∃ spec ∈ costDefinitionSpecs, spec.concept = p.concept ∧ ∃ d ∈ c.definitions, shapeOf d = spec.toCostShape ∧
      d.costDefinitionId = row.cost
  cents : pyRound row.amountGross 2 = row.amountGross
  month : IsMonth (row.billingPeriodStart, row.billingPeriodEnd)
  source : row.source = .synthetic
  billed : IsBilled row

def billKey (row : LineRow String) : String × String × ℤ := (row.apartmentId, row.cost, row.billingPeriodStart)

theorem billKey_eq_iff {r row : LineRow String} : billKey r = billKey row ↔
    r.apartmentId = row.apartmentId ∧ r.cost = row.cost ∧ r.billingPeriodStart = row.billingPeriodStart := by
  simp [billKey]

section

variable (apartment : Apartment) (draw : BillDraw) (id : String) (period : ℤ × ℤ) (eventId : String) (now : ℤ)

theorem billKey_buildLiveRow :
    billKey (buildLiveRow apartment draw id period eventId now) = (apartment.apartmentId, id, period.1) := rfl

theorem billKey_buildHistoricalRow :
    billKey (buildHistoricalRow apartment draw id period eventId now) = (apartment.apartmentId, id, period.1) := rfl

end

structure LedgerOk (c : Catalogue) (rows : List (LineRow String)) : Prop where
  bills : ∀ row ∈ rows, BillOk c row
  once : (rows.map billKey).Nodup
  ids : (rows.map (·.eventId)).Nodup

theorem BillOk.mono {c c' : Catalogue} {row : LineRow String} (h : BillOk c row) (hext : Extends c c') :
    BillOk c' row := by
  obtain ⟨p, hp, hmin, hmax, spec, hspec, hconcept, d, hd, hrest⟩ := h.profile
  exact { h with profile := ⟨p, hp, hmin, hmax, spec, hspec, hconcept, d, hext.definitions d hd, hrest⟩ }

theorem profiles_nonneg : ∀ p ∈ conceptProfiles, 0 ≤ p.amountMin ∧ 0 ≤ p.amountMax := by decide +kernel

theorem BillOk.amountGross_nonneg {c : Catalogue} {row : LineRow String} (h : BillOk c row) : 0 ≤ row.amountGross := by
  obtain ⟨p, hp, hmin, -⟩ := h.profile
  exact (profiles_nonneg p hp).1.trans hmin

theorem LedgerOk.mono {c c' : Catalogue} {rows : List (LineRow String)} (h : LedgerOk c rows) (hext : Extends c c') :
    LedgerOk c' rows :=
  ⟨fun row hrow => (h.bills row hrow).mono hext, h.once, h.ids⟩

theorem ledgerOk_nil (c : Catalogue) : LedgerOk c [] := ⟨fun _ hrow => (nomatch hrow), List.nodup_nil, List.nodup_nil⟩

theorem insertRow_eq_some {rows rows' : List (LineRow String)} {row : LineRow String}
    (h : insertRow rows row = some rows') : row.eventId ∉ rows.map (·.eventId) ∧ rows' = rows ++
      [{ row with amountGross := toNumeric 2 row.amountGross, vatRate := toNumeric 3 row.vatRate }] := by
  unfold insertRow at h
  dsimp only at h
  split_ifs at h with hchecks
  exact ⟨hchecks.1, (Option.some.inj h).symm⟩

/-- A row of a new key. -/
theorem LedgerOk.insertRow {c : Catalogue} {rows rows' : List (LineRow String)} {row : LineRow String}
    (hok : LedgerOk c rows) (h : MockPmApp.insertRow rows row = some rows') (hbill : BillOk c row)
    (hscale : toNumeric 2 row.amountGross = row.amountGross) (hnew : ∀ r ∈ rows, billKey r ≠ billKey row) :
    LedgerOk c rows' := by
  obtain ⟨hid, rfl⟩ := insertRow_eq_some h
  rw [hscale]
  refine ⟨fun r hr => ?_, map_concat_nodup hok.once hnew, map_concat_nodup hok.ids fun r hr heq => ?_⟩
  · rcases List.mem_append.mp hr with hr | hr
    · exact hok.bills r hr
    · rw [List.mem_singleton.mp hr]
      exact ⟨hbill.profile, hbill.cents, hbill.month, hbill.source, hbill.billed⟩
  · exact hid (List.mem_map.mpr ⟨r, hr, heq⟩)

section

variable {c : Catalogue} {m : Dict Concept String} (hres : Resolved c costDefinitionSpecs m)
include hres

/-- What the application builds for a concept of its map. -/
theorem billOk_live {draw : BillDraw} {id : String} (hget : m.get? draw.profile.concept = some id) {period : ℤ × ℤ}
    (hmonth : IsMonth period) (apartment : Apartment) (eventId : String) (now : ℤ) :
    BillOk c (buildLiveRow apartment draw id period eventId now) := by
  obtain ⟨spec, hspec, hconcept⟩ := hres.only _ id hget
  obtain ⟨d, hd, hshape, hid⟩ := hres.found spec hspec
  rw [hconcept, hget] at hid
  obtain ⟨hmin, hmax⟩ := amountGross_mem draw
  exact
    { profile := ⟨draw.profile, draw.profile_mem, hmin, hmax, spec, hspec, hconcept, d, hd, hshape,
        (Option.some.inj hid).symm⟩
      cents := pyRound_pyRound _ 2
      month := hmonth
      source := rfl
      billed := .inl ⟨rfl, rfl⟩ }

theorem billOk_historical {draw : BillDraw} {id : String} (hget : m.get? draw.profile.concept = some id)
    {period : ℤ × ℤ} (hmonth : IsMonth period) (apartment : Apartment) (eventId : String) (now : ℤ) :
    BillOk c (buildHistoricalRow apartment draw id period eventId now) := by
  have hlive := billOk_live hres hget hmonth apartment eventId now
  exact ⟨hlive.profile, hlive.cents, hlive.month, hlive.source, .inr ⟨rfl, Option.some_ne_none _⟩⟩

theorem insertOne_ok {rows rows' : List (LineRow String)} {apartment : Apartment} {draw : BillDraw} {eventId : String}
    {now : ℤ} (hok : LedgerOk c rows) (h : insertOne m rows apartment draw eventId now = some rows') :
    LedgerOk c rows' := by
  unfold insertOne at h
  obtain ⟨id, hget, h⟩ := Option.bind_eq_some_iff.mp h
  split_ifs at h with halready
  · rw [← Option.some.inj h]
    exact hok
  · have hbill := billOk_live hres hget (isMonth_currentMonthBounds (Instant.date now)) apartment eventId now
    refine hok.insertRow h hbill (toNumeric_amountGross draw) fun r hr heq => halready ?_
    rw [billKey_buildLiveRow, billKey, Prod.mk.injEq, Prod.mk.injEq] at heq
    obtain ⟨hapartment, hcost, hstart⟩ := heq
    refine List.any_eq_true.mpr ⟨r, hr, ?_⟩
    simp [hapartment, hcost, hstart, (hok.bills r hr).source]

/-! ## The seed -/

def Bill.key (bill : Bill) : String × ℤ × Concept :=
  (bill.apartment.apartmentId, bill.period.1, bill.draw.profile.concept)

/-- A bill and a row that would have one key. -/
def Bill.Clashes (m : Dict Concept String) (bill : Bill) (row : LineRow String) : Prop :=
  row.apartmentId = bill.apartment.apartmentId ∧ row.billingPeriodStart = bill.period.1 ∧
    m.get? bill.draw.profile.concept = some row.cost

theorem insertBills_ok (hc : CatalogueOk c) {now : ℤ} {bills : List Bill} : ∀ {rows rows' : List (LineRow String)}
    {uuids : List String}, LedgerOk c rows → (∀ bill ∈ bills, IsMonth bill.period) → (bills.map Bill.key).Nodup →
    (∀ row ∈ rows, ∀ bill ∈ bills, ¬bill.Clashes m row) → insertBills m now rows uuids bills = some rows' →
    LedgerOk c rows' := by
  induction bills with
  | nil =>
    intro rows rows' uuids hok _ _ _ h
    unfold insertBills at h
    rw [← Option.some.inj h]
    exact hok
  | cons bill bills ih =>
    intro rows rows' uuids hok hmonths hkeys hclash h
    cases uuids with
    | nil => cases h
    | cons eventId uuids =>
      unfold insertBills at h
      obtain ⟨id, hget, h⟩ := Option.bind_eq_some_iff.mp h
      obtain ⟨rows₁, hinsert, hrest⟩ := Option.bind_eq_some_iff.mp h
      have hok₁ : LedgerOk c rows₁ := by
        have hbill := billOk_historical hres hget (hmonths bill (List.mem_cons_self ..)) bill.apartment eventId now
        refine hok.insertRow hinsert hbill (toNumeric_amountGross bill.draw)
          fun r hr heq => hclash r hr bill (List.mem_cons_self ..) ?_
        rw [billKey_buildHistoricalRow, billKey, Prod.mk.injEq, Prod.mk.injEq] at heq
        obtain ⟨hapartment, hcost, hstart⟩ := heq
        exact ⟨hapartment, hstart, by rw [hget, hcost]⟩
      rw [List.map_cons, List.nodup_cons] at hkeys
      refine ih hok₁ (fun b hb => hmonths b (List.mem_cons_of_mem _ hb)) hkeys.2 (fun r hr b hb hclashes => ?_) hrest
      obtain ⟨-, rfl⟩ := insertRow_eq_some hinsert
      rcases List.mem_append.mp hr with hr | hr
      · exact hclash r hr b (List.mem_cons_of_mem _ hb) hclashes
      · rw [List.mem_singleton.mp hr] at hclashes
        obtain ⟨hapartment, hstart, hcost⟩ := hclashes
        have hconcept := hres.injective hc hget hcost
        refine hkeys.1 (List.mem_map.mpr ⟨b, hb, ?_⟩)
        exact Prod.ext hapartment.symm (Prod.ext hstart.symm hconcept.symm)

end

theorem profile_concepts_nodup : (conceptProfiles.map (·.concept)).Nodup := by decide

section

variable (seedMonths : ℕ) (today : ℤ) (samples : String → ℕ → BillSample)

def monthBills (apartment : Apartment) (monthsAgo : ℕ) : List Bill :=
  (samples apartment.apartmentId monthsAgo).bills.map fun draw => ⟨apartment, monthBounds monthsAgo today, draw⟩

def apartmentBills (apartment : Apartment) : List Bill :=
  ((List.range seedMonths).map (· + 1)).flatMap (monthBills today samples apartment)

theorem seedBills_eq (apartments : List Apartment) :
    seedBills apartments seedMonths today samples = apartments.flatMap (apartmentBills seedMonths today samples) := rfl

variable {seedMonths today samples}

theorem mem_monthBills {apartment : Apartment} {monthsAgo : ℕ} {bill : Bill}
    (h : bill ∈ monthBills today samples apartment monthsAgo) :
    bill.apartment = apartment ∧ bill.period = monthBounds monthsAgo today := by
  obtain ⟨draw, -, rfl⟩ := List.mem_map.mp h
  exact ⟨rfl, rfl⟩

theorem mem_apartmentBills {apartment : Apartment} {bill : Bill}
    (h : bill ∈ apartmentBills seedMonths today samples apartment) :
    bill.apartment = apartment ∧ IsMonth bill.period := by
  obtain ⟨monthsAgo, -, hbill⟩ := List.mem_flatMap.mp h
  obtain ⟨hapartment, hperiod⟩ := mem_monthBills hbill
  rw [hperiod]
  exact ⟨hapartment, isMonth_monthBounds _ _⟩

theorem isMonth_seedBills {apartments : List Apartment} :
    ∀ bill ∈ seedBills apartments seedMonths today samples, IsMonth bill.period := by
  intro bill hbill
  rw [seedBills_eq] at hbill
  obtain ⟨apartment, -, hbill⟩ := List.mem_flatMap.mp hbill
  exact (mem_apartmentBills hbill).2

theorem monthBills_nodup (apartment : Apartment) (monthsAgo : ℕ) :
    ((monthBills today samples apartment monthsAgo).map Bill.key).Nodup := by
  unfold monthBills
  rw [List.map_map]
  refine List.Nodup.map_on (fun x hx y hy heq => ?_) (List.Nodup.of_map _ (samples apartment.apartmentId monthsAgo).nodup)
  have hconcept : x.profile.concept = y.profile.concept := congrArg (·.2.2) heq
  have hprofile := eq_of_map_nodup profile_concepts_nodup x.profile_mem y.profile_mem hconcept
  exact eq_of_map_nodup (samples apartment.apartmentId monthsAgo).nodup hx hy hprofile

/-- The months of the seed start on different days. -/
theorem apartmentBills_nodup (apartment : Apartment) :
    ((apartmentBills seedMonths today samples apartment).map Bill.key).Nodup := by
  unfold apartmentBills
  rw [List.map_flatMap, List.nodup_flatMap]
  refine ⟨fun monthsAgo _ => monthBills_nodup apartment monthsAgo, List.Nodup.pairwise_of_forall_ne
    (List.Nodup.map (fun a b h => Nat.succ.inj h) List.nodup_range) fun k _ l _ hne => ?_⟩
  intro key hk hl
  obtain ⟨bill, hbill, rfl⟩ := List.mem_map.mp hk
  obtain ⟨bill', hbill', hkey⟩ := List.mem_map.mp hl
  have hstart : bill'.period.1 = bill.period.1 := congrArg (·.2.1) hkey
  rw [(mem_monthBills hbill).2, (mem_monthBills hbill').2] at hstart
  have hindex : monthIndex (monthStart l today) = monthIndex (monthStart k today) := congrArg monthIndex hstart
  rw [monthIndex_monthStart, monthIndex_monthStart] at hindex
  exact hne (by omega)

/-- No apartment is seeded two bills of one concept and month. -/
theorem seedBills_nodup {apartments : List Apartment} (hids : (apartments.map (·.apartmentId)).Nodup) :
    ((seedBills apartments seedMonths today samples).map Bill.key).Nodup := by
  rw [seedBills_eq, List.map_flatMap, List.nodup_flatMap]
  refine ⟨fun apartment _ => apartmentBills_nodup apartment,
    List.Nodup.pairwise_of_forall_ne (List.Nodup.of_map _ hids) fun a ha b hb hne => ?_⟩
  intro key hk hl
  obtain ⟨bill, hbill, rfl⟩ := List.mem_map.mp hk
  obtain ⟨bill', hbill', hkey⟩ := List.mem_map.mp hl
  have hsame : bill'.apartment.apartmentId = bill.apartment.apartmentId := congrArg (·.1) hkey
  rw [(mem_apartmentBills hbill).1, (mem_apartmentBills hbill').1] at hsame
  exact hne (eq_of_map_nodup hids ha hb hsame.symm)

end

/-! ## Payment -/

/-- What a payment leaves of a row. -/
def markPaid (eventId : String) (now : ℤ) (row : LineRow String) : LineRow String :=
  if row.eventId = eventId ∧ row.paymentStatus = .pending ∧ row.source = .synthetic then
    { row with paymentStatus := .paid, paymentDate := some (Instant.date now), updatedAt := some now }
  else row

theorem flip_eq_map (rows : List (LineRow String)) (eventId : String) (now : ℤ) :
    flipOnePendingToPaid rows eventId now = rows.map (markPaid eventId now) := rfl

@[simp] theorem billKey_markPaid (eventId : String) (now : ℤ) (row : LineRow String) :
    billKey (markPaid eventId now row) = billKey row := by
  unfold markPaid
  split_ifs <;> rfl

@[simp] theorem eventId_markPaid (eventId : String) (now : ℤ) (row : LineRow String) :
    (markPaid eventId now row).eventId = row.eventId := by
  unfold markPaid
  split_ifs <;> rfl

theorem BillOk.markPaid {c : Catalogue} {row : LineRow String} (h : BillOk c row) (eventId : String) (now : ℤ) :
    BillOk c (MockPmApp.markPaid eventId now row) := by
  unfold MockPmApp.markPaid
  split_ifs
  · exact ⟨h.profile, h.cents, h.month, h.source, .inr ⟨rfl, Option.some_ne_none _⟩⟩
  · exact h

theorem flip_ok {c : Catalogue} {rows : List (LineRow String)} (hok : LedgerOk c rows) (eventId : String) (now : ℤ) :
    LedgerOk c (flipOnePendingToPaid rows eventId now) := by
  rw [flip_eq_map]
  refine ⟨fun r hr => ?_, ?_, ?_⟩
  · obtain ⟨row, hrow, rfl⟩ := List.mem_map.mp hr
    exact (hok.bills row hrow).markPaid eventId now
  · simpa [List.map_map, Function.comp_def] using hok.once
  · simpa [List.map_map, Function.comp_def] using hok.ids

/-! ## Runs -/

/-- The ledger of a database that the application has set up: nothing is in it before the schema is current. -/
def LedgerState (s : PmApp) : Prop :=
  ∃ rows, s.db.lines = .current rows ∧ LedgerOk s.db.catalogue rows ∧ (s.db.catalogue.ensured = false → rows = [])

theorem LedgerState.step {s s' : PmApp} {maps : List (Dict Concept String)} (hs : AppOk s) (h : LedgerState s)
    (he : Effect s s' maps) : LedgerState s' := by
  obtain ⟨rows, hrows, hok, hold⟩ := h
  have hkept : LedgerOk s'.db.catalogue rows ∧ (s'.db.catalogue.ensured = false → rows = []) := by
    cases hensured : s.db.catalogue.ensured with
    | true => exact ⟨hok.mono (he.kept hensured), not_ensured ((he.kept hensured).ensured hensured)⟩
    | false =>
      rw [hold hensured]
      exact ⟨ledgerOk_nil _, fun _ => rfl⟩
  have hresolved : ∀ m, s.conceptToId = some m →
      s'.db.catalogue.ensured = true ∧ Resolved s'.db.catalogue costDefinitionSpecs m := by
    intro m hm
    obtain ⟨hensured, hres⟩ := hs.resolved m hm
    exact ⟨(he.kept hensured).ensured hensured, hres.mono (he.kept hensured)⟩
  have hstep := he.lines
  rw [hrows] at hstep
  unfold LedgerState
  generalize s'.db.lines = next at hstep ⊢
  cases hstep with
  | same => exact ⟨rows, rfl, hkept⟩
  | seeded hm hinsert =>
    obtain ⟨hensured, hres⟩ := hresolved _ hm
    refine ⟨_, rfl, ?_, not_ensured hensured⟩
    exact insertBills_ok hres he.ok.catalogue (ledgerOk_nil _) isMonth_seedBills
      (seedBills_nodup (buildApartmentPool_nodup _ _)) (fun _ hrow => (nomatch hrow)) hinsert
  | inserted hm hinsert =>
    obtain ⟨hensured, hres⟩ := hresolved _ hm
    exact ⟨_, rfl, insertOne_ok hres hkept.1 hinsert, not_ensured hensured⟩
  | flipped eventId now =>
    refine ⟨_, rfl, flip_ok hkept.1 eventId now, fun hensured => ?_⟩
    rw [hkept.2 hensured]
    rfl

/-! ## One bill -/

/-- Bills of one apartment and concept that share a day. -/
theorem LedgerOk.eq_of_concept {c : Catalogue} {rows : List (LineRow String)} (h : LedgerOk c rows) (hc : CatalogueOk c)
    {row row' : LineRow String} (hrow : row ∈ rows) (hrow' : row' ∈ rows) (hapartment : row.apartmentId = row'.apartmentId)
    {day : ℤ} (hday : row.billingPeriodStart ≤ day ∧ day ≤ row.billingPeriodEnd)
    (hday' : row'.billingPeriodStart ≤ day ∧ day ≤ row'.billingPeriodEnd) {d d' : CostDefinitionRow}
    (hd : d ∈ c.definitions) (hd' : d' ∈ c.definitions) (hid : d.costDefinitionId = row.cost)
    (hid' : d'.costDefinitionId = row'.cost) (hconcept : d.concept = d'.concept) : row = row' := by
  have hspec : ∀ {row d}, BillOk c row → d ∈ c.definitions → d.costDefinitionId = row.cost →
      ∃ spec ∈ costDefinitionSpecs, shapeOf d = spec.toCostShape := by
    intro row d hbill hd hid
    obtain ⟨-, -, -, -, spec, hspec, -, d₁, hd₁, hshape, hid₁⟩ := hbill.profile
    rw [hc.registered.eq_of_id hd hd₁ (hid.trans hid₁.symm)]
    exact ⟨spec, hspec, hshape⟩
  obtain ⟨spec, hmem, hshape⟩ := hspec (h.bills row hrow) hd hid
  obtain ⟨spec', hmem', hshape'⟩ := hspec (h.bills row' hrow') hd' hid'
  have hspecs : spec.concept = spec'.concept := by
    calc spec.concept = (shapeOf d).concept := by rw [hshape]
      _ = (shapeOf d').concept := hconcept
      _ = spec'.concept := by rw [hshape']
  rw [eq_of_map_nodup spec_concepts_nodup hmem hmem' hspecs, ← hshape'] at hshape
  have hcost : row.cost = row'.cost := by rw [← hid, ← hid', hc.registered.eq_of_shape hd hd' hshape]
  have hperiod := (h.bills row hrow).month.eq_of_mem (h.bills row' hrow').month hday hday'
  exact eq_of_map_nodup h.once hrow hrow' (billKey_eq_iff.mpr ⟨hapartment, hcost, congrArg Prod.fst hperiod⟩)

/-- What an apartment is billed for a day. -/
def billsOf (rows : List (LineRow String)) (apartmentId : String) (day : ℤ) : List (LineRow String) :=
  rows.filter fun row => row.apartmentId = apartmentId ∧ row.billingPeriodStart ≤ day ∧ day ≤ row.billingPeriodEnd

theorem mem_billsOf {rows : List (LineRow String)} {apartmentId : String} {day : ℤ} {row : LineRow String} :
    row ∈ billsOf rows apartmentId day ↔
      row ∈ rows ∧ row.apartmentId = apartmentId ∧ row.billingPeriodStart ≤ day ∧ day ≤ row.billingPeriodEnd := by
  simp [billsOf]

/-- The rows of an apartment and a day have profiles, each its own. -/
theorem LedgerOk.exists_profiles {c : Catalogue} {rows : List (LineRow String)} (h : LedgerOk c rows)
    (hc : CatalogueOk c) (apartmentId : String) (day : ℤ) : ∃ profile : LineRow String → ConceptProfile,
      ((billsOf rows apartmentId day).map profile).Nodup ∧ ∀ row ∈ billsOf rows apartmentId day,
        profile row ∈ conceptProfiles ∧ row.amountGross ≤ (profile row).amountMax := by
  have hexists : ∀ row : LineRow String, ∃ p : ConceptProfile, row ∈ rows → p ∈ conceptProfiles ∧
      row.amountGross ≤ p.amountMax ∧ ∃ d ∈ c.definitions, d.costDefinitionId = row.cost ∧ d.concept = p.concept := by
    intro row
    by_cases hrow : row ∈ rows
    · obtain ⟨p, hp, -, hmax, spec, -, hconcept, d, hd, hshape, hid⟩ := (h.bills row hrow).profile
      refine ⟨p, fun _ => ⟨hp, hmax, d, hd, hid, ?_⟩⟩
      calc d.concept = (shapeOf d).concept := rfl
        _ = spec.concept := by rw [hshape]
        _ = p.concept := hconcept
    · exact ⟨⟨.electricity, 0, 0, 0⟩, fun hmem => absurd hmem hrow⟩
  choose profile hprofile using hexists
  refine ⟨profile, List.Nodup.map_on (fun row hrow row' hrow' heq => ?_) ((List.Nodup.of_map _ h.once).filter _),
    fun row hrow => ?_⟩
  · obtain ⟨hrow, hapartment, hday⟩ := mem_billsOf.mp hrow
    obtain ⟨hrow', hapartment', hday'⟩ := mem_billsOf.mp hrow'
    obtain ⟨-, -, d, hd, hid, hconcept⟩ := hprofile row hrow
    obtain ⟨-, -, d', hd', hid', hconcept'⟩ := hprofile row' hrow'
    rw [← heq, ← hconcept] at hconcept'
    exact h.eq_of_concept hc hrow hrow' (hapartment.trans hapartment'.symm) hday hday' hd hd' hid hid' hconcept'.symm
  · obtain ⟨hp, hmax, -⟩ := hprofile row (mem_billsOf.mp hrow).1
    exact ⟨hp, hmax⟩

theorem profiles_sum : (conceptProfiles.map (·.amountMax)).sum = 1445 := by decide +kernel

theorem LedgerOk.billsOf_bounded {c : Catalogue} {rows : List (LineRow String)} (h : LedgerOk c rows)
    (hc : CatalogueOk c) (apartmentId : String) (day : ℤ) : (billsOf rows apartmentId day).length ≤ 12 ∧
      ((billsOf rows apartmentId day).map (·.amountGross)).sum ≤ 1445 := by
  obtain ⟨profile, hnodup, hprofile⟩ := h.exists_profiles hc apartmentId day
  refine ⟨length_le_of_keys hnodup fun row hrow => (hprofile row hrow).1, ?_⟩
  calc ((billsOf rows apartmentId day).map (·.amountGross)).sum ≤ (conceptProfiles.map (·.amountMax)).sum :=
        sum_le_of_keys hnodup (fun row hrow => (hprofile row hrow).1) (fun row hrow => (hprofile row hrow).2)
          fun p hp => (profiles_nonneg p hp).2
    _ = 1445 := profiles_sum

/-- The ledger of every database that the application has set up. -/
theorem run_ledgerOk {s : PmApp} {es : List PmEvent} {maps : List (Dict Concept String)}
    (h : run (pmStep fetch) .fresh es = .ok (s, maps)) :
    CatalogueOk s.db.catalogue ∧ ∃ rows, s.db.lines = .current rows ∧ LedgerOk s.db.catalogue rows := by
  have hstart : AppOk .fresh := appOk_start (catalogueOk_empty false)
  have hempty : LedgerState .fresh := ⟨[], rfl, ledgerOk_nil _, fun _ => rfl⟩
  obtain ⟨rows, hrows, hok, -⟩ := run_kept (I := LedgerState) LedgerState.step hstart hempty h
  exact ⟨(run_effect hstart h).1.catalogue, rows, hrows, hok⟩

/-- Whatever transactions run and wherever processes are lost: no apartment is ever billed one concept twice for a
day, and so never more than twelve bills and 1445 euros for a month. -/
theorem one_bill_a_month {s : PmApp} {es : List PmEvent} {maps : List (Dict Concept String)}
    (h : run (pmStep fetch) .fresh es = .ok (s, maps)) : ∃ rows, s.db.lines = .current rows ∧
      (∀ apartmentId day, ∀ row ∈ billsOf rows apartmentId day, ∀ row' ∈ billsOf rows apartmentId day,
        ∀ d ∈ s.db.catalogue.definitions, ∀ d' ∈ s.db.catalogue.definitions, d.costDefinitionId = row.cost →
          d'.costDefinitionId = row'.cost → d.concept = d'.concept → row = row') ∧
      ∀ apartmentId day, (billsOf rows apartmentId day).length ≤ 12 ∧
        ((billsOf rows apartmentId day).map (·.amountGross)).sum ≤ 1445 := by
  obtain ⟨hc, rows, hrows, hok⟩ := run_ledgerOk h
  refine ⟨rows, hrows, fun apartmentId day row hrow row' hrow' d hd d' hd' hid hid' hconcept => ?_,
    hok.billsOf_bounded hc⟩
  obtain ⟨hmem, hapartment, hday⟩ := mem_billsOf.mp hrow
  obtain ⟨hmem', hapartment', hday'⟩ := mem_billsOf.mp hrow'
  exact hok.eq_of_concept hc hmem hmem' (hapartment.trans hapartment'.symm) hday hday' hd hd' hid hid' hconcept

def oneApartment (_ : ℕ) : ApartmentDraw := ⟨.standard, 4, false, true⟩

def billDraw (i : Fin 12) : BillDraw :=
  ⟨conceptProfiles.get i, 1 / 3, .bankTransfer, List.get_mem _ _, by norm_num⟩

def electricityDraw : BillDraw := billDraw 0

def waterDraw : BillDraw := billDraw 1

def threeBills (_ : String) (_ : ℕ) : BillSample :=
  ⟨[electricityDraw, waterDraw, billDraw 7], by decide +kernel, le_refl 3⟩

def liveApartment : Apartment := (buildApartmentPool 1 oneApartment).head (by decide)

/-- A seed and one live bill, which is tried again after the process is lost and started anew. -/
def billedEvents : List PmEvent :=
  [.ensureSchema, .resolveCostDefinitionIds someIds, .seed 0 1 oneApartment 2 threeBills ["a", "b", "c", "d", "e", "f"],
   .insertOne 0 liveApartment waterDraw "g", .start, .ensureSchema, .resolveCostDefinitionIds [],
   .insertOne 86400000000 liveApartment waterDraw "h", .flipOnePendingToPaid 86400000000 "g"]

def PaymentLines.eventIds : PaymentLines → List String
  | .current rows => rows.map (·.eventId)
  | .legacy rows => rows.map (·.eventId)

theorem repeated_bill : ∃ s maps, run (pmStep (Fetch.first _)) .fresh billedEvents = .ok (s, maps) ∧
    ∃ rows, s.db.lines = .current rows ∧ rows.map (·.eventId) = ["a", "b", "c", "d", "e", "f", "g"] ∧
      ∀ apartmentId day, ((billsOf rows apartmentId day).map (·.amountGross)).sum ≤ 1445 := by
  obtain ⟨s, maps, h⟩ := exists_run (Fetch.first _) .fresh billedEvents
  have hids : (run (pmStep (Fetch.first _)) .fresh billedEvents).toOption.map (fun r => r.1.db.lines.eventIds) =
      some ["a", "b", "c", "d", "e", "f", "g"] := by
    decide +kernel
  obtain ⟨rows, hrows, -, hbills⟩ := one_bill_a_month h
  rw [h] at hids
  have hids : s.db.lines.eventIds = ["a", "b", "c", "d", "e", "f", "g"] := Option.some.inj hids
  rw [hrows] at hids
  exact ⟨s, maps, h, rows, hrows, hids, fun apartmentId day => (hbills apartmentId day).2⟩

end PriceEngine.MockPmApp
