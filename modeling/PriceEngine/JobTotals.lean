import PriceEngine.ChainMessages
import PriceEngine.ConfigRaces
import PriceEngine.Eviction
import PriceEngine.LedgerSound

/-!
# From the bills to the prices

The job is sent every change of a bill, in some order and some of them again.
Of an apartment it keeps the bills of the two latest months that it has seen,
and it prices from those of the latest. So the monthly total of an aggregate is
a part of the ledger's, the whole of it once each bill of the month has come,
and no total is ever above what an apartment can be billed.
-/

namespace PriceEngine.MockPmApp

/-! ## Bills as lines -/

/-- The line tells of the row: none of this changes while the row is in the ledger. -/
structure BillLine (row : LineRow String) (line : EnrichedPaymentLine) : Prop where
  eventId : line.eventId = row.eventId
  apartmentId : line.apartmentId = row.apartmentId
  periodStart : line.billingPeriodStart = row.billingPeriodStart
  periodEnd : line.billingPeriodEnd = row.billingPeriodEnd
  amountGross : line.amountGross = row.amountGross

def IsBill (rows : List (LineRow String)) (apartmentId : String) (line : EnrichedPaymentLine) : Prop :=
  ∃ row ∈ rows, row.apartmentId = apartmentId ∧ BillLine row line

/-- What Stage A keeps of an apartment. -/
def KeptBills (rows : List (LineRow String)) (apartmentId : String) (d : Dict String EnrichedPaymentLine) : Prop :=
  d.All fun eventId line => line.eventId = eventId ∧ IsBill rows apartmentId line

section

variable {rows : List (LineRow String)} {a : String} {d : Dict String EnrichedPaymentLine}

theorem KeptBills.of_mem (hd : KeptBills rows a d) {line : EnrichedPaymentLine} (hline : line ∈ d.values) :
    IsBill rows a line := by
  obtain ⟨eventId, hget⟩ := Dict.mem_values.mp hline
  exact (hd eventId line hget).2

theorem KeptBills.ids (hd : KeptBills rows a d) : (d.values.map (·.eventId)).Nodup := by
  have hkeys : d.values.map (·.eventId) = d.keys := by
    unfold Dict.values Dict.keys
    rw [List.map_map]
    exact List.map_congr_left fun e he => (hd e.1 e.2 (Dict.mem_entries.mp he)).1
  rw [hkeys]
  exact d.keys_nodup

theorem KeptBills.retainLine (hd : KeptBills rows a d) {line : EnrichedPaymentLine} (hline : IsBill rows a line) :
    KeptBills rows a (PriceEngine.retainLine d line) := by
  have hput : KeptBills rows a (d.put line.eventId line) := Dict.All.put hd ⟨rfl, hline⟩
  exact fun eventId stored hget => hput eventId stored (Dict.get?_filterValues.mp hget).1

theorem keptBills_retainedLines {lines : List EnrichedPaymentLine} (h : ∀ line ∈ lines, IsBill rows a line) :
    KeptBills rows a (retainedLines lines) := by
  induction lines using List.reverseRecOn with
  | nil => exact Dict.all_empty _
  | append_singleton lines line ih =>
    rw [retainedLines, List.foldl_concat]
    exact (ih fun l hl => h l (List.mem_append_left _ hl)).retainLine (h line (List.mem_append_right _ (by simp)))

end

/-! ## The total of the latest month -/

theorem aggregateCost_latest {lines : List EnrichedPaymentLine} {r : CostAggregationResult}
    (h : aggregateCost lines = some r) : ∀ line ∈ lines, line.billingPeriodEnd ≤ r.billingPeriodEnd := by
  simp only [aggregateCost, Option.bind_eq_bind, Option.bind_eq_some_iff] at h
  obtain ⟨currentEnd, hmax, first, -, h⟩ := h
  rw [← Option.some.inj h]
  exact fun line hline => (List.max?_eq_some_iff.mp hmax).2 _ (List.mem_map_of_mem hline)

/-- The figures are those of bills of one month, each once. -/
structure Billed (rows : List (LineRow String)) (apartmentId : String) (period : ℤ × ℤ) (count : ℕ) (total : ℚ)
    (taken : List (LineRow String)) : Prop where
  month : IsMonth period
  nodup : taken.Nodup
  mem : ∀ row ∈ taken, row ∈ billsOf rows apartmentId period.2
  count : count = taken.length
  total : total = (taken.map (·.amountGross)).sum

section

variable {c : Catalogue} {rows : List (LineRow String)} (hok : LedgerOk c rows) {a : String}
include hok

theorem LedgerOk.eq_of_id {row row' : LineRow String} (hrow : row ∈ rows) (hrow' : row' ∈ rows)
    (h : row.eventId = row'.eventId) : row = row' :=
  eq_of_map_nodup hok.ids hrow hrow' h

theorem LedgerOk.mem_billsOf_end {row : LineRow String} (hrow : row ∈ rows) :
    row ∈ billsOf rows row.apartmentId row.billingPeriodEnd :=
  mem_billsOf.mpr ⟨hrow, rfl, (hok.bills row hrow).month.end_mem⟩

/-- The bills of a bill's month are of the same month. -/
theorem LedgerOk.period_eq {last row : LineRow String} (hlast : last ∈ rows)
    (hrow : row ∈ billsOf rows a last.billingPeriodEnd) :
    row.billingPeriodStart = last.billingPeriodStart ∧ row.billingPeriodEnd = last.billingPeriodEnd := by
  obtain ⟨hrow, -, hday⟩ := mem_billsOf.mp hrow
  have hmonth := (hok.bills last hlast).month
  exact Prod.mk.inj ((hok.bills row hrow).month.eq_of_mem hmonth hday hmonth.end_mem)

theorem bills_aggregated {d : Dict String EnrichedPaymentLine} (hd : KeptBills rows a d) {r : CostAggregationResult}
    (h : aggregateCost d.values = some r) : ∃ taken,
      Billed rows a (r.billingPeriodStart, r.billingPeriodEnd) r.costLinesCount r.totalMonthlyCostEur taken ∧
      ∀ row ∈ billsOf rows a r.billingPeriodEnd, (∃ line ∈ d.values, BillLine row line) → row ∈ taken := by
  obtain ⟨first, hfirst, hr⟩ := aggregateCost_eq_some h
  obtain ⟨last, hlast, ha, hfirstLine⟩ := hd.of_mem hfirst
  have hmonth : IsMonth (r.billingPeriodStart, r.billingPeriodEnd) := by
    rw [hr]
    show IsMonth (first.billingPeriodStart, first.billingPeriodEnd)
    rw [hfirstLine.periodStart, hfirstLine.periodEnd]
    exact (hok.bills last hlast).month
  have hend : r.billingPeriodEnd = first.billingPeriodEnd := by rw [hr]; rfl
  have hnonempty : Nonempty (LineRow String) := ⟨last⟩
  choose! rowOf hmem hapartment hline using fun line (hline : line ∈ d.values) => hd.of_mem hline
  let lines := d.values.filter fun line => line.billingPeriodEnd == first.billingPeriodEnd
  have hlines : ∀ line ∈ lines, line ∈ d.values ∧ line.billingPeriodEnd = r.billingPeriodEnd := by
    intro line hin
    obtain ⟨hin, heq⟩ := List.mem_filter.mp hin
    exact ⟨hin, (eq_of_beq heq).trans hend.symm⟩
  have hamounts : (lines.map rowOf).map (·.amountGross) = lines.map (·.amountGross) := by
    rw [List.map_map]
    exact List.map_congr_left fun line hin => (hline line (hlines line hin).1).amountGross.symm
  refine ⟨lines.map rowOf, ⟨hmonth, ?_, ?_, ?_, ?_⟩, ?_⟩
  · refine List.Nodup.map_on (fun x hx y hy heq => ?_) ((List.Nodup.of_map _ hd.ids).filter _)
    have hx := (hlines x hx).1
    have hy := (hlines y hy).1
    exact eq_of_map_nodup hd.ids hx hy (by rw [(hline x hx).eventId, (hline y hy).eventId, heq])
  · intro row hrow
    obtain ⟨line, hin, rfl⟩ := List.mem_map.mp hrow
    obtain ⟨hin, hends⟩ := hlines line hin
    rw [← hends, (hline line hin).periodEnd, ← hapartment line hin]
    exact hok.mem_billsOf_end (hmem line hin)
  · rw [hr, List.length_map]
    rfl
  · have htotal : r.totalMonthlyCostEur = pyRound (lines.map (·.amountGross)).sum 2 := by
      rw [hr]
      change pyRound (sumWhere _ _ lines) 2 = _
      rw [sumWhere, List.filter_true]
    rw [htotal, hamounts]
    refine pyRound_sum_eq_self (List.forall_mem_map.mpr fun line hin => ?_)
    have hin := (hlines line hin).1
    rw [(hline line hin).amountGross]
    exact (hok.bills _ (hmem line hin)).cents
  · rintro row hrow ⟨line, hin, hbill⟩
    obtain ⟨hrow, -, hday⟩ := mem_billsOf.mp hrow
    have hperiod := (hok.bills row hrow).month.eq_of_mem hmonth hday hmonth.end_mem
    have hsame : rowOf line = row :=
      hok.eq_of_id (hmem line hin) hrow ((hline line hin).eventId.symm.trans hbill.eventId)
    refine List.mem_map.mpr ⟨line, List.mem_filter.mpr ⟨hin, ?_⟩, hsame⟩
    rw [beq_iff_eq, ← hend, hbill.periodEnd]
    exact congrArg Prod.snd hperiod

theorem Billed.bounded (hc : CatalogueOk c) {period : ℤ × ℤ} {count : ℕ} {total : ℚ} {taken : List (LineRow String)}
    (h : Billed rows a period count total taken) : count ≤ 12 ∧ total ≤ 1445 := by
  obtain ⟨hlength, hsum⟩ := hok.billsOf_bounded hc a period.2
  have hsub : taken.Subperm (billsOf rows a period.2) := h.nodup.subperm h.mem
  rw [h.count, h.total]
  refine ⟨hsub.length_le.trans hlength, le_trans ?_ hsum⟩
  refine sum_le_of_keys (f := id) (by simpa using h.nodup) h.mem (fun _ _ => le_refl _) fun row hrow => ?_
  exact (hok.bills row (mem_billsOf.mp hrow).1).amountGross_nonneg

end

/-! ## Every bill of the month -/

theorem exists_received {lines : List EnrichedPaymentLine} {line : EnrichedPaymentLine} (h : line ∈ lines) :
    ∃ stored ∈ (receivedLines lines).values, stored.eventId = line.eventId := by
  have hget := Dict.get?_foldl_put (·.eventId) id lines line.eventId
  cases hfind : lines.reverse.find? fun l => l.eventId == line.eventId with
  | none => simpa using List.find?_eq_none.mp hfind line (List.mem_reverse.mpr h)
  | some stored =>
    rw [hfind] at hget
    exact ⟨stored, Dict.mem_values.mpr ⟨_, hget⟩, eq_of_beq (List.find?_some hfind :)⟩

section

variable {c : Catalogue} {rows : List (LineRow String)} (hok : LedgerOk c rows) {a : String}
  {lines : List EnrichedPaymentLine} (hbills : ∀ line ∈ lines, IsBill rows a line)
include hok hbills

theorem keepPeriodEnds_bills : KeepPeriodEnds lines := by
  intro x hx y hy hid
  obtain ⟨row, hrow, -, hline⟩ := hbills x hx
  obtain ⟨row', hrow', -, hline'⟩ := hbills y hy
  have hsame : row = row' := hok.eq_of_id hrow hrow' (hline.eventId.symm.trans (hid.trans hline'.eventId))
  rw [hline.periodEnd, hline'.periodEnd, hsame]

/-- A bill of the latest month is never evicted. -/
theorem exists_retained {last : Date} (hlatest : ∀ row ∈ rows, row.apartmentId = a → row.billingPeriodEnd ≤ last)
    {row : LineRow String} (hrow : row ∈ rows) (hend : row.billingPeriodEnd = last)
    (hline : ∃ line ∈ lines, line.eventId = row.eventId) :
    ∃ line ∈ (retainedLines lines).values, BillLine row line := by
  obtain ⟨line, hin, hid⟩ := hline
  obtain ⟨stored, hstored, hsame⟩ := exists_received hin
  have hreceived : ∀ l ∈ (receivedLines lines).values, l ∈ lines := by
    intro l hl
    obtain ⟨eventId, hget⟩ := Dict.mem_values.mp hl
    exact (receivedLines_all lines eventId l hget).1
  obtain ⟨row', hrow', -, hbill⟩ := hbills stored (hreceived stored hstored)
  obtain rfl : row' = row := hok.eq_of_id hrow' hrow (hbill.eventId.symm.trans (hsame.trans hid))
  have hmax : (periodEnds (receivedLines lines)).max? = some last := by
    refine List.max?_eq_some_iff.mpr ⟨mem_periodEnds.mpr ⟨stored, hstored, hbill.periodEnd.trans hend⟩, fun e he => ?_⟩
    obtain ⟨l, hl, rfl⟩ := mem_periodEnds.mp he
    obtain ⟨r, hr, hra, hrl⟩ := hbills l (hreceived l hl)
    rw [hrl.periodEnd]
    exact hlatest r hr hra
  refine ⟨stored, ?_, hbill⟩
  rw [retainedLines_eq (keepPeriodEnds_bills hok hbills), Dict.values_filterValues, List.mem_filter, isRetained_iff,
    hbill.periodEnd, hend]
  exact ⟨hstored, max?_mem_retained hmax⟩

end

theorem retained_total {c : Catalogue} {rows : List (LineRow String)} (hok : LedgerOk c rows) {last : LineRow String}
    (hlast : last ∈ rows)
    (hlatest : ∀ row ∈ rows, row.apartmentId = last.apartmentId → row.billingPeriodEnd ≤ last.billingPeriodEnd)
    {lines : List EnrichedPaymentLine} (hbills : ∀ line ∈ lines, IsBill rows last.apartmentId line)
    (hall : ∀ row ∈ billsOf rows last.apartmentId last.billingPeriodEnd, ∃ line ∈ lines, line.eventId = row.eventId) :
    ∃ r, aggregateCost (retainedLines lines).values = some r ∧
      r.billingPeriodStart = last.billingPeriodStart ∧ r.billingPeriodEnd = last.billingPeriodEnd ∧
      r.costLinesCount = (billsOf rows last.apartmentId last.billingPeriodEnd).length ∧
      r.totalMonthlyCostEur = ((billsOf rows last.apartmentId last.billingPeriodEnd).map (·.amountGross)).sum := by
  have hkept := keptBills_retainedLines hbills
  have hretained : ∀ row ∈ billsOf rows last.apartmentId last.billingPeriodEnd,
      ∃ line ∈ (retainedLines lines).values, BillLine row line := fun row hrow =>
    exists_retained hok hbills hlatest (mem_billsOf.mp hrow).1 (hok.period_eq hlast hrow).2 (hall row hrow)
  obtain ⟨line, hline, hlastLine⟩ := hretained last (hok.mem_billsOf_end hlast)
  obtain ⟨r, hr⟩ := aggregateCost_isSome (List.ne_nil_of_mem hline)
  have hend : r.billingPeriodEnd = last.billingPeriodEnd := by
    refine le_antisymm ?_ (hlastLine.periodEnd ▸ aggregateCost_latest hr line hline)
    obtain ⟨first, hfirst, hfirstEnd⟩ := aggregateCost_eq_some hr
    obtain ⟨row, hrow, ha, hbill⟩ := hkept.of_mem hfirst
    rw [hfirstEnd]
    exact hbill.periodEnd ▸ hlatest row hrow ha
  obtain ⟨taken, hbilled, htaken⟩ := bills_aggregated hok hkept hr
  rw [hend] at htaken
  have hperm : taken.Perm (billsOf rows last.apartmentId last.billingPeriodEnd) := by
    refine (List.perm_ext_iff_of_nodup hbilled.nodup ?_).mpr fun row => ⟨fun hrow => ?_, fun hrow => ?_⟩
    · exact (List.Nodup.of_map _ hok.ids).filter _
    · rw [← hend]
      exact hbilled.mem row hrow
    · exact htaken row hrow (hretained row hrow)
  refine ⟨r, hr, ?_, hend, ?_, ?_⟩
  · have hmonth := hbilled.month
    rw [hend] at hmonth
    exact congrArg Prod.fst (hmonth.eq_of_mem (hok.bills last hlast).month hmonth.end_mem
      (hok.bills last hlast).month.end_mem)
  · rw [hbilled.count]
    exact hperm.length_eq
  · rw [hbilled.total]
    exact (hperm.map _).sum_eq

/-- Once Stage A has been sent every bill of an apartment's latest month, in any order, some again and with bills of
other months between them, each line sends on the ledger's own count and total of that month. -/
theorem job_total_exact {fetch : Fetch CostDefinitionRow} {s : PmApp} {es : List PmEvent}
    {maps : List (Dict Concept String)} (h : run (pmStep fetch) .fresh es = .ok (s, maps)) {rows : List (LineRow String)}
    (hrows : s.db.lines = .current rows) {last : LineRow String} (hlast : last ∈ rows)
    (hlatest : ∀ row ∈ rows, row.apartmentId = last.apartmentId → row.billingPeriodEnd ≤ last.billingPeriodEnd)
    {events : List StageAEvent} {value : EnrichedPaymentLine}
    (hbills : ∀ line ∈ paymentLinesOf events ++ [value], IsBill rows last.apartmentId line)
    (hall : ∀ row ∈ billsOf rows last.apartmentId last.billingPeriodEnd,
      ∃ line ∈ paymentLinesOf events ++ [value], line.eventId = row.eventId) (now : Instant) :
    ∃ r, ((stageAAfter events).handle (.line now value)).2 = (stageAAfter events).emitted now value (some r) ∧
      r.billingPeriodStart = last.billingPeriodStart ∧ r.billingPeriodEnd = last.billingPeriodEnd ∧
      r.costLinesCount = (billsOf rows last.apartmentId last.billingPeriodEnd).length ∧
      r.totalMonthlyCostEur = ((billsOf rows last.apartmentId last.billingPeriodEnd).map (·.amountGross)).sum := by
  obtain ⟨hc, rows', hrows', hok⟩ := run_ledgerOk h
  rw [hrows] at hrows'
  obtain rfl := PaymentLines.current.inj hrows'
  obtain ⟨r, hr, hrest⟩ := retained_total hok hlast hlatest hbills hall
  refine ⟨r, ?_, hrest⟩
  have hlines : ((stageAAfter events).processElement now value).1.costLines =
      retainedLines (paymentLinesOf events ++ [value]) := by
    rw [retainedLines, List.foldl_concat]
    exact congrArg (retainLine · value) (stageAAfter_costLines events)
  rw [← hr, ← hlines]
  exact processElement_emitted _ now value

def flatApartment : Apartment :=
  { apartmentId := "a1"
    apartmentReference := "A-1"
    city := "Barcelona"
    neighborhood := "Gracia"
    propertyType := .apartment
    bedrooms := 2 }

def flatBill (draw : BillDraw) (costDefinitionId eventId : String) : LineRow String :=
  buildLiveRow flatApartment draw costDefinitionId (currentMonthBounds (toordinal 1970 1 1)) eventId 0

/-- Paid the day after it was inserted. -/
def electricityBill : LineRow String := markPaid "e1" 86400000000 (flatBill electricityDraw "electricity" "e1")

def waterBill : LineRow String := flatBill waterDraw "water" "e2"

def flatLedger : List (LineRow String) := [electricityBill, waterBill]

def flatBillEvents : List PmEvent :=
  [.ensureSchema, .resolveCostDefinitionIds ("electricity" :: "water" :: someIds.drop 2),
   .insertOne 0 flatApartment electricityDraw "e1", .insertOne 0 flatApartment waterDraw "e2",
   .flipOnePendingToPaid 86400000000 "e1"]

theorem flatLedger_run : ∃ s maps, run (pmStep (Fetch.first _)) .fresh flatBillEvents = .ok (s, maps) ∧
    s.db.lines = .current flatLedger := by
  obtain ⟨s, maps, h⟩ := exists_run (Fetch.first _) .fresh flatBillEvents
  have hlines : (run (pmStep (Fetch.first _)) .fresh flatBillEvents).toOption.map (fun r => r.1.db.lines) =
      some (.current flatLedger) := by
    decide +kernel
  rw [h] at hlines
  exact ⟨s, maps, h, Option.some.inj hlines⟩

def flatBillLine (draw : BillDraw) (eventId : String) (concept : Concept) : EnrichedPaymentLine :=
  { eventId
    apartmentId := "a1"
    apartmentReference := "A-1"
    billingPeriodStart := toordinal 1970 1 1
    billingPeriodEnd := toordinal 1970 1 31
    amountGross := draw.amountGross
    concept
    scope := .property
    behavior := .variable'
    trigger := .time
    calculationBase := .fixedAmount
    recurrence := .monthly
    revenueBase := none
    allocationMethod := .calendarDay
    weightConfig := none }

def electricityBillLine : EnrichedPaymentLine := flatBillLine electricityDraw "e1" .electricity

def waterFirst : List StageAEvent := [.line 0 (flatBillLine waterDraw "e2" .water)]

theorem flatLedger_total : ∃ r, ((stageAAfter waterFirst).handle (.line 0 electricityBillLine)).2 =
      (stageAAfter waterFirst).emitted 0 electricityBillLine (some r) ∧
    r.costLinesCount = 2 ∧ r.totalMonthlyCostEur = 11667 / 100 := by
  obtain ⟨s, maps, h, hrows⟩ := flatLedger_run
  have hlast : waterBill ∈ flatLedger := by simp [flatLedger]
  have hbills : ∀ line ∈ paymentLinesOf waterFirst ++ [electricityBillLine], IsBill flatLedger "a1" line := by
    have hlines : paymentLinesOf waterFirst = [flatBillLine waterDraw "e2" .water] := rfl
    simp only [hlines, List.cons_append, List.nil_append, List.forall_mem_cons, List.not_mem_nil, false_implies,
      implies_true, and_true]
    constructor
    · exact ⟨waterBill, hlast, rfl, rfl, rfl, by decide +kernel, by decide +kernel, rfl⟩
    · exact ⟨electricityBill, by simp [flatLedger], by decide +kernel,
        by decide +kernel, by decide +kernel, by decide +kernel, by decide +kernel, by decide +kernel⟩
  obtain ⟨r, hr, -, -, hcount, htotal⟩ := job_total_exact h hrows hlast (by decide +kernel) hbills (by decide +kernel) 0
  refine ⟨r, hr, hcount.trans (by decide +kernel), htotal.trans (by decide +kernel)⟩

/-! ## Runs of the job -/

/-- A change event of the row, whichever change it tells of. -/
structure ChangeOf (row : LineRow String) (value : PaymentLine) : Prop where
  eventId : value.eventId = row.eventId
  apartmentId : value.apartmentId = row.apartmentId
  costDefinitionId : value.costDefinitionId = row.cost
  periodStart : value.billingPeriodStart = row.billingPeriodStart
  periodEnd : value.billingPeriodEnd = row.billingPeriodEnd
  amountGross : value.amountGross = row.amountGross

theorem ChangeOf.isBill {rows : List (LineRow String)} {row : LineRow String} (hrow : row ∈ rows) {value : PaymentLine}
    (h : ChangeOf row value) {s : CostDefinitionResolution} :
    ∀ line ∈ s.processElement value, IsBill rows value.apartmentId line := by
  intro line hline
  unfold CostDefinitionResolution.processElement at hline
  split at hline
  · rw [List.mem_singleton.mp hline]
    exact ⟨row, hrow, h.apartmentId.symm, h.eventId, h.apartmentId, h.periodStart, h.periodEnd, h.amountGross⟩
  · cases hline

/-- The figures of the aggregate are bills of its apartment. -/
def FromBills (rows : List (LineRow String)) (apartmentId : String) (cost : CostAggregate) : Prop :=
  cost.apartmentId = apartmentId ∧ ∃ taken, Billed rows apartmentId (cost.billingPeriodStart, cost.billingPeriodEnd)
    cost.costLinesCount cost.totalMonthlyCostEur taken

theorem keptByOperators_fromBills (rows : List (LineRow String)) (a : String) : KeptByOperators (FromBills rows a) where
  recompute := fun _ _ h => h
  applyCorrections := by
    intro cost h
    unfold applyCorrections
    split <;> exact h
  companyCosts := by
    intro s cost h
    unfold CompanyCostEnrichment.processElement
    dsimp only
    split <;> exact h
  ownerContract := by
    intro s cost h c hc
    unfold OwnerContractEnrichment.processElement at hc
    split at hc
    · cases hc
    · rw [List.mem_singleton.mp hc]
      exact h

/-- The lines of a chain are bills of its apartment. -/
structure LinesBilled (rows : List (LineRow String)) (s : Pipeline) : Prop where
  waiting : ∀ a, ∀ line ∈ (s.chains a).toCostEnrichment.map (·.2), IsBill rows a line
  kept : ∀ a, KeptBills rows a (s.chains a).costEnrichment.costLines

section

variable {rows : List (LineRow String)} {s s' : Pipeline} {e : Env × PipelineEvent} {os : List Emitted}

theorem LinesBilled.step (hs : LinesBilled rows s) (h : s.step e = .ok (s', os))
    (he : ∀ value, e.2 = .payment value → ∃ row ∈ rows, ChangeOf row value) : LinesBilled rows s' := by
  obtain ⟨-, hchains, -⟩ := Pipeline.step_cases h
  have hchain : ∀ a, (∀ line ∈ (s'.chains a).toCostEnrichment.map (·.2), IsBill rows a line) ∧
      KeptBills rows a (s'.chains a).costEnrichment.costLines := by
    intro a
    rw [hchains]
    split
    · next ha =>
      rcases Chain.lines_cases (s.chains a) s.steps (e.1.now 0) e.2 with
        ⟨value, hvalue, -, hkept, hwaiting⟩ | ⟨b, m, rest, -, -, hq, hwaiting, hkept⟩ | ⟨-, hwaiting, hkept, -⟩
      · rw [hwaiting, hkept]
        refine ⟨fun line hline => ?_, hs.kept a⟩
        rcases List.mem_append.mp hline with hline | hline
        · exact hs.waiting a line hline
        · obtain ⟨row, hrow, hchange⟩ := he value hvalue
          rw [hvalue] at ha
          rw [← Option.some.inj ha]
          exact hchange.isBill hrow line hline
      · have hbills := hs.waiting a
        rw [hq, List.map_cons] at hbills
        rw [hwaiting, hkept]
        exact ⟨fun line hline => hbills line (List.mem_cons_of_mem _ hline),
          (hs.kept a).retainLine (hbills m.2 (List.mem_cons_self ..))⟩
      · rw [hwaiting, hkept]
        exact ⟨hs.waiting a, hs.kept a⟩
    · exact ⟨hs.waiting a, hs.kept a⟩
  exact ⟨fun a => (hchain a).1, fun a => (hchain a).2⟩

theorem LinesBilled.built {c : Catalogue} (hok : LedgerOk c rows) (hs : LinesBilled rows s) {a : String} {now : Instant}
    {cause : Cause} {line : EnrichedPaymentLine} {rest : List (Cause × EnrichedPaymentLine)}
    (hq : (s.chains a).toCostEnrichment = (cause, line) :: rest) :
    ∀ cost ∈ ((s.chains a).costEnrichment.processElement now line).2, FromBills rows a cost := by
  intro cost hcost
  obtain ⟨r, profile, strategy, hr, -, -, rfl⟩ := CostEnrichment.mem_processElement hcost
  have hline : IsBill rows a line := by
    have hbills := hs.waiting a
    rw [hq, List.map_cons] at hbills
    exact hbills line (List.mem_cons_self ..)
  obtain ⟨taken, hbilled, -⟩ := bills_aggregated hok ((hs.kept a).retainLine hline) hr
  obtain ⟨row, -, ha, hbill⟩ := hline
  exact ⟨hbill.apartmentId.trans ha, taken, hbilled⟩

end

/-- In every run of the job that is sent changes of the ledger's bills and no other payment lines, in any order and any
of them again: the monthly total of each decision is the sum of different bills of its apartment for one calendar
month, at most twelve of them and 1445 euros. -/
theorem decisions_billed {fetch : Fetch CostDefinitionRow} {app : PmApp} {es : List PmEvent}
    {maps : List (Dict Concept String)} (h : run (pmStep fetch) .fresh es = .ok (app, maps))
    {rows : List (LineRow String)} (hrows : app.db.lines = .current rows) {events : List (Env × PipelineEvent)}
    (hpayments : ∀ e ∈ events, ∀ value, e.2 = .payment value → ∃ row ∈ rows, ChangeOf row value) {s : Pipeline}
    {os : List Emitted} (hrun : run Pipeline.step {} events = .ok (s, os)) :
    ∀ o ∈ os, ∃ bills : List (LineRow String), bills.Nodup ∧
      (∀ row ∈ bills, row ∈ billsOf rows o.decision.apartmentId o.decision.costInputs.billingPeriodEnd) ∧
      IsMonth (o.decision.costInputs.billingPeriodStart, o.decision.costInputs.billingPeriodEnd) ∧
      o.decision.costInputs.costLinesCount = some bills.length ∧ bills.length ≤ 12 ∧
      o.decision.costInputs.totalMonthlyCostEur = (bills.map (·.amountGross)).sum ∧
      o.decision.costInputs.totalMonthlyCostEur ≤ 1445 := by
  obtain ⟨hc, rows', hrows', hok⟩ := run_ledgerOk h
  rw [hrows] at hrows'
  obtain rfl := PaymentLines.current.inj hrows'
  have hstep : ∀ (s : Pipeline) e s' os, LinesBilled rows s ∧ s.Carried (FromBills rows) →
      (∀ value, e.2 = .payment value → ∃ row ∈ rows, ChangeOf row value) → s.step e = .ok (s', os) →
      (LinesBilled rows s' ∧ s'.Carried (FromBills rows)) ∧
        ∀ o ∈ os, ∃ cost, FromBills rows o.decision.apartmentId cost ∧ BuiltFrom cost o.decision := by
    intro s e s' os hi he hs
    obtain ⟨hholds, hbuilt⟩ := step_carried (keptByOperators_fromBills rows) (fun _ _ hcost => hcost.1) hs hi.2
      fun a cause line rest hq => hi.1.built hok hq
    exact ⟨⟨hi.1.step hs he, hholds⟩, hbuilt⟩
  have hempty : LinesBilled rows {} := ⟨fun _ _ hline => (nomatch hline), fun _ => Dict.all_empty _⟩
  intro o ho
  obtain ⟨cost, ⟨-, taken, hbilled⟩, hbuild⟩ := run_outputs
    (Q := fun o => ∃ cost, FromBills rows o.decision.apartmentId cost ∧ BuiltFrom cost o.decision)
    (fun s e s' os hi he hs => (hstep s e s' os hi he hs).1) (fun s e s' os hi he hs => (hstep s e s' os hi he hs).2)
    ⟨hempty, carried_empty _⟩ (along_of_forall (fun _ => hpayments) _) hrun o ho
  obtain ⟨_, _, _, _, _, _, hbuild⟩ := hbuild
  obtain ⟨market, minimumStay, channels, -, -, -, hd, -⟩ := buildPriceDecision_eq_ok.mp hbuild
  obtain ⟨hcount, htotal⟩ := hbilled.bounded hok hc
  rw [hd]
  refine ⟨taken, hbilled.nodup, ?_, hbilled.month, congrArg some hbilled.count, hbilled.count ▸ hcount, hbilled.total,
    htotal⟩
  rw [hd] at hbilled
  exact hbilled.mem

def flatPayment : PaymentLine :=
  { flatLine "e1" 0 0 with
    billingPeriodStart := toordinal 1970 1 1
    billingPeriodEnd := toordinal 1970 1 31
    amountGross := 8667 / 100
    amountGross_nonneg := by norm_num }

/-- The bill as it is inserted and again as it is paid. -/
def flatJob : List (Env × PipelineEvent) :=
  jobFrom 0 (flatRows ++ [.market (flatMarket none (toordinal 1970 1 21) 0), .payment flatPayment] ++ flatFlow gracia ++
    [.payment flatPayment] ++ flatFlow gracia)

theorem flatJob_billed : ∃ s os, run Pipeline.step {} flatJob = .ok (s, os) ∧ os.length = 2 ∧
    ∀ o ∈ os, o.decision.costInputs.totalMonthlyCostEur ≤ 1445 := by
  obtain ⟨app, maps, h, hrows⟩ := flatLedger_run
  have hlength : (run Pipeline.step {} flatJob).toOption.map (·.2.length) = some 2 := by decide +kernel
  obtain ⟨⟨s, os⟩, hrun, hlength⟩ := ok_of_map hlength
  have hpayments : ∀ e ∈ flatJob, ∀ value, e.2 = .payment value → ∃ row ∈ flatLedger, ChangeOf row value := by
    intro e he value hvalue
    have hmem := mem_of_mem_jobFrom he
    rw [hvalue] at hmem
    have hsame : value = flatPayment := by simpa [flatRows, flatFlow, flatOperators] using hmem
    rw [hsame]
    exact ⟨electricityBill, by simp [flatLedger], by decide +kernel,
      by decide +kernel, by decide +kernel, by decide +kernel, by decide +kernel, by decide +kernel⟩
  refine ⟨s, os, hrun, hlength, fun o ho => ?_⟩
  obtain ⟨-, -, -, -, -, -, -, hle⟩ := decisions_billed h hrows hpayments hrun o ho
  exact hle

end PriceEngine.MockPmApp
