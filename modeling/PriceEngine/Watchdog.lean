import Mathlib.Algebra.Group.Int.Defs
import PriceEngine.StageBBounds

/-!
# The freshness watchdog

Stage B with its timers: an element registers a timer for the deadline it
writes, and a timer fires once, reporting every key whose deadline it is. Timers
are never cancelled. The clock of a run is in milliseconds: `Precedes` puts an
instant between two events. `lastUpdate` is the history the deadlines are
compared with: the reading at which each key was last written.
-/

namespace PriceEngine

/-! ## The machine -/

inductive WatchEvent
  | element (e : Env × StageBEvent)
  | timer (timestamp : ℤ)

inductive WatchOutput
  | decision (d : PriceDecision)
  | dataStale (timestamp : ℤ) (key : StaleKey)

def WatchOutput.stale : WatchOutput → Option (ℤ × StaleKey)
  | .decision _ => none
  | .dataStale timestamp key => some (timestamp, key)

/-- A pending timer is taken from the segment's timers and calls `on_timer`. -/
def StageB.fire (s : StageB) (timestamp : ℤ) : StageB × List WatchOutput :=
  if timestamp ∈ s.timers then
    ({ s with timers := s.timers.erase timestamp }, (onTimer s timestamp).map (.dataStale timestamp))
  else (s, [])

def StageB.watchStep (s : StageB) : WatchEvent → Except PricingError (StageB × List WatchOutput)
  | .element e => do
    let (s', ds) ← s.step e
    .ok (s', ds.map .decision)
  | .timer timestamp => .ok (s.fire timestamp)

/-! ## The clock -/

def epochMillis (now : Instant) : ℤ := Int.tdiv now 1000

theorem nextDeadlineMillis_eq (now : Instant) :
    nextDeadlineMillis now = epochMillis now + freshnessThresholdMs := rfl

/-- The event is over at millisecond `m`. -/
def WatchEvent.Until (m : ℤ) : WatchEvent → Prop
  | .element e => ∀ i, epochMillis (e.1.now i) ≤ m
  | .timer timestamp => timestamp ≤ m

/-- The event does not start before millisecond `m`. -/
def WatchEvent.Since (m : ℤ) : WatchEvent → Prop
  | .element e => ∀ i, m ≤ epochMillis (e.1.now i)
  | .timer timestamp => m ≤ timestamp

def WatchEvent.Precedes (e f : WatchEvent) : Prop := ∃ m, e.Until m ∧ f.Since m

/-! ## Keys and their deadlines -/

def StageBEvent.key : StageBEvent → StaleKey
  | .cost value => .apartment value.apartmentId
  | .market value => .night value.targetDate

/-- The reading an accepted event computes its deadline from. -/
def StageBEvent.reading : StageBEvent → ℕ
  | .cost _ => 0
  | .market _ => 2

def StageB.stores (s : StageB) : StaleKey → Bool
  | .apartment a => (s.apartments.get? a).isSome
  | .night d => (s.nights.get? d).isSome

def StageB.deadline (s : StageB) : StaleKey → Option ℤ
  | .apartment a => s.apartmentDeadlines.get? a
  | .night d => s.nightDeadlines.get? d

/-- The keys an accepted event removes: the evicted apartment, or the expired nights. -/
def StageB.removes (s : StageB) (e : Env × StageBEvent) : StaleKey → Bool
  | .apartment a =>
    match e.2 with
    | .cost value => s.evicted value == some a
    | .market _ => false
  | .night d =>
    match e.2 with
    | .cost _ => false
    | .market _ => (expiredNightKeys s.nights (Instant.date (e.1.now 1))).contains d

section
variable (s : StageB) (e : Env × StageBEvent) (key : StaleKey)

theorem accept_stores : (s.accept e).stores key =
    if key = e.2.key then true else if s.removes e key then false else s.stores key := by
  obtain ⟨env, value | value⟩ := e
  · cases key with
    | apartment a =>
      simp only [StageB.accept_cost, StageB.stores, StageB.removes, StageBEvent.key, acceptCost_apartments,
        StaleKey.apartment.injEq, beq_iff_eq]
      split_ifs <;> rfl
    | night d => simp [StageB.stores, StageB.removes, StageBEvent.key]
  · cases key with
    | apartment a => simp [StageB.stores, StageB.removes, StageBEvent.key]
    | night d =>
      simp only [StageB.accept_market, StageB.stores, StageB.removes, StageBEvent.key, acceptMarket_nights,
        StaleKey.night.injEq, List.contains_iff_mem, mem_expiredNightKeys, Dict.mem_keys_iff_isSome]
      split_ifs <;> simp_all

theorem accept_deadline : (s.accept e).deadline key =
    if key = e.2.key then some (nextDeadlineMillis (e.1.now e.2.reading))
    else if s.removes e key then none else s.deadline key := by
  obtain ⟨env, value | value⟩ := e <;> cases key with
  | apartment a =>
    simp [StageB.deadline, StageB.removes, StageBEvent.key, StageBEvent.reading,
      acceptCost_apartmentDeadlines]
  | night d =>
    simp [StageB.deadline, StageB.removes, StageBEvent.key, StageBEvent.reading,
      acceptMarket_nightDeadlines, mem_expiredNightKeys]

theorem accept_timers :
    (s.accept e).timers = registerTimer (nextDeadlineMillis (e.1.now e.2.reading)) s.timers := by
  obtain ⟨env, value | value⟩ := e
  · rw [StageB.accept_cost, acceptCost_eq]
    cases s.evicted value <;> rfl
  · simp [acceptMarket, putNight, expireNights, dropNights_eq, StageBEvent.reading]

end

/-! ## The history of updates -/

def noteUpdate (s : StageB) (e : WatchEvent) (_ : List WatchOutput) (last : StaleKey → Option Instant) :
    StaleKey → Option Instant :=
  match e with
  | .element e => if s.accepts e then Function.update last e.2.key (some (e.1.now e.2.reading)) else last
  | .timer _ => last

/-- When each key was last written by an accepted event, in a run from the empty state. -/
def lastUpdate (es : List WatchEvent) : StaleKey → Option Instant :=
  observed StageB.watchStep noteUpdate {} (fun _ => none) es

/-- The key's deadline is that of its last update, where it is stored. -/
structure StageB.Dated (s : StageB) (last : StaleKey → Option Instant) : Prop where
  stored : ∀ key, s.stores key = true →
    ∃ u, last key = some u ∧ s.deadline key = some (nextDeadlineMillis u)
  unstored : ∀ key, s.stores key = false → s.deadline key = none

theorem dated_empty : ({} : StageB).Dated fun _ => none where
  stored key h := by cases key <;> cases h
  unstored key _ := by cases key <;> rfl

/-- Every deadline has its timer pending, or was reported when it fired; no report comes twice. -/
structure StageB.Armed (s : StageB) (es : List WatchEvent) (os : List WatchOutput) : Prop where
  armed : ∀ key t, s.deadline key = some t → t ∈ s.timers ∨ .dataStale t key ∈ os
  fired : ∀ key t, .dataStale t key ∈ os → t ∉ s.timers ∧ .timer t ∈ es
  once : (os.filterMap WatchOutput.stale).Nodup
  timers : s.timers.Nodup

theorem armed_empty : ({} : StageB).Armed [] [] where
  armed key t h := by cases key <;> cases h
  fired _ _ h := nomatch h
  once := List.nodup_nil
  timers := List.nodup_nil

/-! ## One element -/

section
variable {s s' : StageB} {e : Env × StageBEvent} {os : List WatchOutput}

theorem watch_element (h : s.watchStep (.element e) = .ok (s', os)) :
    (∃ ds : List PriceDecision, os = ds.map .decision) ∧
      (s.accepts e = false ∧ s' = s ∧ os = [] ∨
        s.accepts e = true ∧ s'.stores = (s.accept e).stores ∧ s'.deadline = (s.accept e).deadline ∧
          s'.timers = (s.accept e).timers) := by
  obtain ⟨⟨t, ds⟩, hstep, he⟩ := bind_eq_ok.mp h
  obtain ⟨rfl, rfl⟩ := Prod.mk.inj (Except.ok.inj he)
  refine ⟨⟨ds, rfl⟩, ?_⟩
  rcases StageB.step_cases hstep with ⟨hacc, rfl, rfl⟩ | ⟨hacc, streaks, -, rfl⟩
  · exact Or.inl ⟨hacc, rfl, rfl⟩
  · exact Or.inr ⟨hacc, funext fun key => by cases key <;> rfl, funext fun key => by cases key <;> rfl, rfl⟩

theorem mem_decisions {ds : List PriceDecision} {t : ℤ} {key : StaleKey} :
    WatchOutput.dataStale t key ∉ ds.map WatchOutput.decision := by
  simp

theorem stale_decisions (ds : List PriceDecision) :
    (ds.map WatchOutput.decision).filterMap WatchOutput.stale = [] := by
  induction ds with
  | nil => rfl
  | cons d ds ih => exact ih

theorem element_dated {last : StaleKey → Option Instant} (hs : s.Dated last)
    (h : s.watchStep (.element e) = .ok (s', os)) : s'.Dated (noteUpdate s (.element e) os last) := by
  obtain ⟨-, ⟨hacc, rfl, -⟩ | ⟨hacc, hstores, hdeadline, -⟩⟩ := watch_element h
  · simp only [noteUpdate, hacc, Bool.false_eq_true, if_false]
    exact hs
  · simp only [noteUpdate, hacc, if_true]
    constructor
    · intro key hkey
      rw [hstores, accept_stores] at hkey
      rw [hdeadline, accept_deadline]
      by_cases hown : key = e.2.key
      · rw [if_pos hown, hown, Function.update_self]
        exact ⟨_, rfl, rfl⟩
      · rw [if_neg hown] at hkey ⊢
        split at hkey
        · cases hkey
        · rename_i hkept
          rw [if_neg hkept, Function.update_of_ne hown]
          exact hs.stored key hkey
    · intro key hkey
      rw [hstores, accept_stores] at hkey
      rw [hdeadline, accept_deadline]
      split at hkey
      · cases hkey
      · rename_i hown
        rw [if_neg hown]
        split at hkey
        · rename_i hremoved
          rw [if_pos hremoved]
        · rename_i hkept
          rw [if_neg hkept]
          exact hs.unstored key hkey

theorem mem_registerTimer {t u : ℤ} {timers : List ℤ} : u ∈ registerTimer t timers ↔ u = t ∨ u ∈ timers := by
  unfold registerTimer
  split
  · rename_i hmem
    exact ⟨Or.inr, fun h => h.elim (fun he => he ▸ hmem) id⟩
  · rw [List.mem_append, List.mem_singleton, or_comm]

theorem registerTimer_nodup {t : ℤ} {timers : List ℤ} (h : timers.Nodup) : (registerTimer t timers).Nodup := by
  unfold registerTimer
  split
  · exact h
  · rename_i hmem
    exact List.nodup_append.mpr ⟨h, List.nodup_singleton t, fun a ha b hb => by
      rw [List.mem_singleton.mp hb]; exact fun he => hmem (he ▸ ha)⟩

/-- A deadline is later than every timer that fired before the reading it is computed from. -/
theorem nextDeadline_fresh {t : ℤ} (hbefore : (WatchEvent.timer t).Precedes (.element e)) (i : ℕ) :
    t < nextDeadlineMillis (e.1.now i) := by
  obtain ⟨m, htm, hm⟩ := hbefore
  have hread : m ≤ epochMillis (e.1.now i) := hm i
  have htm' : t ≤ m := htm
  calc t ≤ epochMillis (e.1.now i) := htm'.trans hread
    _ < epochMillis (e.1.now i) + freshnessThresholdMs := lt_add_of_pos_right _ (by decide)

theorem element_armed {es : List WatchEvent} {out : List WatchOutput} (hs : s.Armed es out)
    (hclock : ∀ f ∈ es, f.Precedes (.element e)) (h : s.watchStep (.element e) = .ok (s', os)) :
    s'.Armed (es ++ [.element e]) (out ++ os) := by
  obtain ⟨⟨ds, rfl⟩, hcases⟩ := watch_element h
  have hreports : ∀ key t, .dataStale t key ∈ out ++ ds.map WatchOutput.decision → .dataStale t key ∈ out :=
    fun key t hmem => (List.mem_append.mp hmem).resolve_right mem_decisions
  have honce : ((out ++ ds.map WatchOutput.decision).filterMap WatchOutput.stale).Nodup := by
    rw [List.filterMap_append, stale_decisions, List.append_nil]
    exact hs.once
  rcases hcases with ⟨-, rfl, hnil⟩ | ⟨-, -, hdeadline, htimers⟩
  · refine { armed := fun key t hkey => ?_, fired := fun key t hmem => ?_, once := honce, timers := hs.timers }
    · exact (hs.armed key t hkey).imp id (List.mem_append_left _)
    · exact (hs.fired key t (hreports key t hmem)).imp id (List.mem_append_left _)
  · refine { armed := fun key t hkey => ?_, fired := fun key t hmem => ?_, once := honce, timers := ?_ }
    · rw [htimers, accept_timers, mem_registerTimer]
      rw [hdeadline, accept_deadline] at hkey
      split_ifs at hkey
      · exact Or.inl (Or.inl (Option.some.inj hkey).symm)
      · exact (hs.armed key t hkey).imp Or.inr (List.mem_append_left _)
    · obtain ⟨hgone, hevent⟩ := hs.fired key t (hreports key t hmem)
      refine ⟨?_, List.mem_append_left _ hevent⟩
      rw [htimers, accept_timers, mem_registerTimer]
      -- the timer that fired cannot be registered again: the new deadline lies in its future
      exact fun hreg => hreg.elim (nextDeadline_fresh (hclock _ hevent) _).ne hgone
    · rw [htimers, accept_timers]
      exact registerTimer_nodup hs.timers

end

/-! ## One firing -/

theorem mem_expiredKeys {K : Type*} [DecidableEq K] {deadlines : Dict K ℤ} {t : ℤ} {k : K} :
    k ∈ expiredKeys deadlines t ↔ deadlines.get? k = some t := by
  unfold expiredKeys
  rw [List.mem_map]
  constructor
  · intro ⟨⟨k', t'⟩, hmem, hk⟩
    obtain ⟨hmem, ht⟩ := List.mem_filter.mp hmem
    rw [← hk, ← (beq_iff_eq.mp ht : t' = t)]
    exact Dict.mem_entries.mp hmem
  · intro h
    exact ⟨(k, t), List.mem_filter.mpr ⟨Dict.mem_entries.mpr h, beq_self_eq_true t⟩, rfl⟩

theorem expiredKeys_nodup {K : Type*} (deadlines : Dict K ℤ) (t : ℤ) : (expiredKeys deadlines t).Nodup :=
  (List.filter_sublist.map Prod.fst).nodup deadlines.nodup

theorem mem_onTimer {s : StageB} {t : ℤ} {key : StaleKey} : key ∈ onTimer s t ↔ s.deadline key = some t := by
  unfold onTimer
  cases key with
  | apartment a => simp [StageB.deadline, mem_expiredKeys]
  | night d => simp [StageB.deadline, mem_expiredKeys]

theorem onTimer_nodup (s : StageB) (t : ℤ) : (onTimer s t).Nodup := by
  refine List.nodup_append.mpr ⟨?_, ?_, ?_⟩
  · exact (expiredKeys_nodup _ t).map fun _ _ h => StaleKey.apartment.inj h
  · exact (expiredKeys_nodup _ t).map fun _ _ h => StaleKey.night.inj h
  · intro a ha b hb he
    obtain ⟨_, -, rfl⟩ := List.mem_map.mp ha
    obtain ⟨_, -, rfl⟩ := List.mem_map.mp hb
    cases he

section
variable {s s' : StageB} {t : ℤ} {os : List WatchOutput} (h : s.watchStep (.timer t) = .ok (s', os))
include h

theorem watch_timer : s'.stores = s.stores ∧ s'.deadline = s.deadline ∧
    (t ∈ s.timers ∧ s'.timers = s.timers.erase t ∧ os = (onTimer s t).map (.dataStale t) ∨
      t ∉ s.timers ∧ s' = s ∧ os = []) := by
  have he : s.fire t = (s', os) := Except.ok.inj h
  unfold StageB.fire at he
  split at he
  · rename_i hmem
    obtain ⟨rfl, rfl⟩ := Prod.mk.inj he
    refine ⟨funext fun key => ?_, funext fun key => ?_, Or.inl ⟨hmem, rfl, rfl⟩⟩ <;> cases key <;> rfl
  · rename_i hmem
    obtain ⟨rfl, rfl⟩ := Prod.mk.inj he
    exact ⟨rfl, rfl, Or.inr ⟨hmem, rfl, rfl⟩⟩

theorem timer_dated {last : StaleKey → Option Instant} (hs : s.Dated last) :
    s'.Dated (noteUpdate s (.timer t) os last) := by
  obtain ⟨hstores, hdeadline, -⟩ := watch_timer h
  constructor
  · rw [hstores, hdeadline]
    exact hs.stored
  · rw [hstores, hdeadline]
    exact hs.unstored

theorem timer_armed {es : List WatchEvent} {out : List WatchOutput} (hs : s.Armed es out) :
    s'.Armed (es ++ [.timer t]) (out ++ os) := by
  obtain ⟨-, hdeadline, ⟨hmem, htimers, rfl⟩ | ⟨-, rfl, rfl⟩⟩ := watch_timer h
  · have hnow : ∀ key u, .dataStale u key ∈ (onTimer s t).map (WatchOutput.dataStale t) ↔
        u = t ∧ s.deadline key = some t := by
      intro key u
      simp [mem_onTimer, and_comm, eq_comm]
    have hstale : ((onTimer s t).map (WatchOutput.dataStale t)).filterMap WatchOutput.stale =
        (onTimer s t).map (t, ·) := by
      rw [List.filterMap_map]
      exact congrFun (List.filterMap_eq_map (f := fun key => (t, key))) _
    constructor
    · intro key u hkey
      rw [hdeadline] at hkey
      by_cases hu : u = t
      · exact Or.inr (List.mem_append_right _ ((hnow key u).mpr ⟨hu, hu ▸ hkey⟩))
      · rw [htimers, List.mem_erase_of_ne hu]
        exact (hs.armed key u hkey).imp id (List.mem_append_left _)
    · intro key u hrep
      rw [htimers]
      rcases List.mem_append.mp hrep with hrep | hrep
      · obtain ⟨hgone, hevent⟩ := hs.fired key u hrep
        exact ⟨fun hin => hgone (List.mem_of_mem_erase hin), List.mem_append_left _ hevent⟩
      · obtain ⟨rfl, -⟩ := (hnow key u).mp hrep
        exact ⟨hs.timers.not_mem_erase, List.mem_append_right _ (List.mem_singleton_self _)⟩
    · rw [List.filterMap_append, hstale]
      refine List.nodup_append.mpr ⟨hs.once, (onTimer_nodup s t).map fun _ _ he => (Prod.mk.inj he).2, ?_⟩
      intro a ha b hb hab
      obtain ⟨key, -, rfl⟩ := List.mem_map.mp hb
      obtain ⟨o, ho, hstaleo⟩ := List.mem_filterMap.mp (hab ▸ ha)
      cases o with
      | decision d => cases hstaleo
      | dataStale u key' =>
        obtain ⟨rfl, rfl⟩ := Prod.mk.inj (Option.some.inj hstaleo)
        exact (hs.fired key' u ho).1 hmem
    · rw [htimers]
      exact hs.timers.erase t
  · exact { hs with
      armed := fun key u hkey => (hs.armed key u hkey).imp id (List.mem_append_left _)
      fired := fun key u hrep => (hs.fired key u (by simpa using hrep)).imp id (List.mem_append_left _)
      once := by rw [List.append_nil]; exact hs.once }

end

/-- What a step reports: the stored keys last written 48 hours before the timer that fires. -/
theorem reports_iff {s s' : StageB} {last : StaleKey → Option Instant} (hs : s.Dated last) {e : WatchEvent}
    {os : List WatchOutput} (h : s.watchStep e = .ok (s', os)) {t : ℤ} {key : StaleKey} :
    .dataStale t key ∈ os ↔ e = .timer t ∧ t ∈ s.timers ∧ s.stores key = true ∧
      ∃ u, last key = some u ∧ epochMillis u = t - freshnessThresholdMs := by
  have hdue : s.deadline key = some t ↔ s.stores key = true ∧
      ∃ u, last key = some u ∧ epochMillis u = t - freshnessThresholdMs := by
    cases hstored : s.stores key with
    | false =>
      rw [hs.unstored key hstored]
      exact iff_of_false (fun h => nomatch h) fun h => nomatch h.1
    | true =>
      obtain ⟨u, hu, hdeadline⟩ := hs.stored key hstored
      rw [hdeadline, hu, Option.some.injEq, nextDeadlineMillis_eq, ← eq_sub_iff_add_eq]
      simp
  cases e with
  | element e =>
    obtain ⟨⟨ds, rfl⟩, -⟩ := watch_element h
    exact iff_of_false mem_decisions fun h => nomatch h.1
  | timer u =>
    rw [← hdue, WatchEvent.timer.injEq]
    obtain ⟨-, -, ⟨hmem, -, rfl⟩ | ⟨hmem, -, rfl⟩⟩ := watch_timer h
    · rw [List.mem_map]
      constructor
      · intro ⟨key', hkey, he⟩
        obtain ⟨rfl, rfl⟩ := WatchOutput.dataStale.inj he
        exact ⟨rfl, hmem, mem_onTimer.mp hkey⟩
      · intro ⟨hu, _, hdeadline⟩
        exact ⟨key, mem_onTimer.mpr (hu ▸ hdeadline), by rw [hu]⟩
    · exact iff_of_false List.not_mem_nil fun hin => hmem (hin.1 ▸ hin.2.1)

/-! ## Runs -/

section
variable {es : List WatchEvent} {s : StageB} {os : List WatchOutput}

theorem run_dated (h : run StageB.watchStep {} es = .ok (s, os)) : s.Dated (lastUpdate es) := by
  refine run_prefix (I := fun p t _ => t.Dated (lastUpdate p)) dated_empty ?_ h
  intro p e q t os t' o _ hr ht hstep
  rw [lastUpdate, observed_concat hr hstep]
  cases e with
  | element e => exact element_dated ht hstep
  | timer u => exact timer_dated hstep ht

theorem run_armed (hclock : es.Pairwise WatchEvent.Precedes)
    (h : run StageB.watchStep {} es = .ok (s, os)) : s.Armed es os := by
  refine run_prefix (I := fun p t o => t.Armed p o) armed_empty ?_ h
  intro p e q t os t' o hes _ ht hstep
  cases e with
  | timer u => exact timer_armed hstep ht
  | element e =>
    rw [hes] at hclock
    exact element_armed ht (fun f hf => (List.pairwise_append.mp hclock).2.2 f hf _ (List.mem_cons_self ..)) hstep

end

/-- Deadlines, pending timers and reports of a run, and what the next event may add to them. The last part
says that a key whose deadline has passed was reported, where no pending timer was passed over. -/
theorem watchdog_exact {es : List WatchEvent} (hclock : es.Pairwise WatchEvent.Precedes) {s : StageB}
    {os : List WatchOutput} (h : run StageB.watchStep {} es = .ok (s, os)) :
    (∀ key, s.stores key = true → ∃ u t, lastUpdate es key = some u ∧
      t = epochMillis u + freshnessThresholdMs ∧ s.deadline key = some t ∧
      (t ∈ s.timers ∧ .dataStale t key ∉ os ∨ t ∉ s.timers ∧ .timer t ∈ es ∧ .dataStale t key ∈ os)) ∧
    (∀ key, s.stores key = false → s.deadline key = none) ∧
    (os.filterMap WatchOutput.stale).Nodup ∧
    ∀ e s' o, s.watchStep e = .ok (s', o) →
      (∀ t key, .dataStale t key ∈ o ↔ e = .timer t ∧ t ∈ s.timers ∧ s.stores key = true ∧
        ∃ u, lastUpdate es key = some u ∧ epochMillis u = t - freshnessThresholdMs) ∧
      (∀ t, e = .timer t → s'.stores = s.stores ∧ s'.deadline = s.deadline ∧ s'.timers = s.timers.erase t) ∧
      (∀ e', e = .element e' → s.accepts e' = false → s' = s ∧ o = []) ∧
      ((∀ t ∈ s.timers, e.Until t) → ∀ key t, s.deadline key = some t → ¬ e.Until t → .dataStale t key ∈ os) := by
  have hd := run_dated h
  have ha := run_armed hclock h
  refine ⟨fun key hkey => ?_, hd.unstored, ha.once, fun e s' o hstep => ⟨fun t key => ?_, ?_, ?_, ?_⟩⟩
  · obtain ⟨u, hu, hdeadline⟩ := hd.stored key hkey
    refine ⟨u, _, hu, rfl, hdeadline, ?_⟩
    rcases ha.armed key _ hdeadline with hpending | hreported
    · exact Or.inl ⟨hpending, fun hrep => (ha.fired key _ hrep).1 hpending⟩
    · exact Or.inr ⟨(ha.fired key _ hreported).1, (ha.fired key _ hreported).2, hreported⟩
  · rw [reports_iff hd hstep]
  · rintro t rfl
    obtain ⟨hstores, hdeadline, ⟨-, htimers, -⟩ | ⟨hmem, rfl, -⟩⟩ := watch_timer hstep
    · exact ⟨hstores, hdeadline, htimers⟩
    · exact ⟨rfl, rfl, (List.erase_of_not_mem hmem).symm⟩
  · rintro e' rfl hacc
    obtain ⟨-, ⟨-, hs, ho⟩ | ⟨hacc', -⟩⟩ := watch_element hstep
    · exact ⟨hs, ho⟩
    · exact absurd (hacc.symm.trans hacc') Bool.false_ne_true
  · intro hprompt key t hdeadline hlate
    exact (ha.armed key t hdeadline).resolve_left fun hpending => hlate (hprompt t hpending)

def silentFlat : List WatchEvent :=
  [.element (envAt 0, .cost (flatCost "a1" 0)), .timer freshnessThresholdMs]

theorem silentFlat_reported : ∃ s os, run StageB.watchStep {} silentFlat = .ok (s, os) ∧
    .dataStale freshnessThresholdMs (.apartment "a1") ∈ os := by
  have hclock : silentFlat.Pairwise WatchEvent.Precedes :=
    List.pairwise_pair.mpr ⟨0, fun _ => le_refl 0, Int.natCast_nonneg 172800000⟩
  refine ⟨_, _, rfl, ?_⟩
  obtain ⟨u, t, hu, rfl, -, hcase⟩ := (watchdog_exact hclock rfl).1 (.apartment "a1") rfl
  obtain rfl : 0 = u := Option.some.inj hu
  exact (hcase.resolve_left fun hpending => absurd hpending.1 (by decide)).2.2

end PriceEngine
