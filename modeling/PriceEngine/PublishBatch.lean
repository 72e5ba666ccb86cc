import Mathlib.Algebra.Order.Field.Basic
import Mathlib.Algebra.Order.Field.Rat
import Mathlib.Data.List.FinRange
import PriceEngine.Resends
import PriceEngine.Run

/-!
# Publishing a batch

`publish_batch` hands its records to `put_records` and submits those the
response marks with an error code again, after a backoff that doubles. When the
retries are used up it logs what still fails and drops it. Records are followed
by their position in the batch, so that equal records are told apart.
-/

namespace PriceEngine.MarketIngestor

structure KinesisRecord where
  data : List UInt8
  partitionKey : String
  deriving DecidableEq

/-- An entry of `response["Records"]`; nothing reads what else it carries. -/
structure ResponseEntry where
  errorCode : Option String
  deriving DecidableEq

inductive Effect
  | putRecords (streamName : String) (records : List KinesisRecord) (response : List ResponseEntry)
  | sleep (seconds : ℚ)
  | publishFailed (partitionKey errorCode : String)
  deriving DecidableEq

/-- What `pending[i]` and `time.sleep` raise. -/
inductive PublishError
  | indexError | valueError
  deriving DecidableEq

/-- What a call does, and the exception it ends with where it does not return. -/
structure Trace where
  effects : List Effect
  raised : Option PublishError
  deriving DecidableEq

def Trace.after (effects : List Effect) (t : Trace) : Trace := { t with effects := effects ++ t.effects }

/-! ## The loop -/

/-- `time.sleep` refuses a negative number of seconds. Its own limit, some 292 years, and that of a float
are left out: `publishBatch_slept` bounds what it is asked for. -/
def sleep (seconds : ℚ) : Except PublishError Effect :=
  if seconds < 0 then .error .valueError else .ok (.sleep seconds)

/-- `pending[i]`. -/
def item (pending : List KinesisRecord) (i : ℕ) : Except PublishError KinesisRecord :=
  match pending[i]? with
  | some record => .ok record
  | none => .error .indexError

/-- The positions of the entries with an `ErrorCode`, which both loops over the response go through. -/
def failedEntries (response : List ResponseEntry) : List (ℕ × String) :=
  response.zipIdx.filterMap fun (entry, i) => entry.errorCode.map fun code => (i, code)

def failedRecords (pending : List KinesisRecord) (response : List ResponseEntry) :
    Except PublishError (List KinesisRecord) :=
  (failedEntries response).mapM fun (i, _) => item pending i

def logFailed (pending : List KinesisRecord) : List (ℕ × String) → Trace
  | [] => ⟨[], none⟩
  | (i, code) :: rest =>
    match item pending i with
    | .error e => ⟨[], some e⟩
    | .ok record => (logFailed pending rest).after [.publishFailed record.partitionKey code]

section
variable (putRecords : ℕ → List KinesisRecord → List ResponseEntry) (streamName : String) (maxRetries : ℕ)
  (backoffBaseSeconds : ℚ)

/-- The client answers call `attempt` on `pending` with `putRecords attempt pending`. -/
def publishLoop (pending : List KinesisRecord) (attempt : ℕ) : Trace :=
  if pending.isEmpty then ⟨[], none⟩
  else
    let response := putRecords attempt pending
    let request := Effect.putRecords streamName pending response
    match failedRecords pending response with
    | .error e => ⟨[request], some e⟩
    | .ok failed =>
      if failed.isEmpty then ⟨[request], none⟩
      else if maxRetries ≤ attempt then (logFailed pending (failedEntries response)).after [request]
      else
        match sleep (backoffBaseSeconds * 2 ^ attempt) with
        | .error e => ⟨[request], some e⟩
        | .ok slept => (publishLoop failed (attempt + 1)).after [request, slept]
termination_by maxRetries - attempt

def publishBatch (records : List KinesisRecord) : Trace :=
  publishLoop putRecords streamName maxRetries backoffBaseSeconds records 0

end

/-! ## Following the records -/

section
variable (streamName : String) (backoffBaseSeconds : ℚ) (records : List KinesisRecord)

/-- The request of a call and its response; the items of the call are positions of the batch. -/
def callEffect (call : Round (Fin records.length) String) : Effect :=
  .putRecords streamName (call.items.map records.get) (call.map fun e => ⟨e.2⟩)

def logEffect (e : Fin records.length × String) : Effect :=
  .publishFailed (records.get e.1).partitionKey e.2

/-- The calls from number `attempt` on, and before each retry the backoff. -/
def callEffects : ℕ → List (Round (Fin records.length) String) → List Effect
  | _, [] => []
  | _, [call] => [callEffect streamName records call]
  | attempt, call :: call' :: calls =>
    callEffect streamName records call :: .sleep (backoffBaseSeconds * 2 ^ attempt) ::
      callEffects (attempt + 1) (call' :: calls)

end

/-- The response has an entry for each record of the request. -/
def Aligned (putRecords : ℕ → List KinesisRecord → List ResponseEntry) : Prop :=
  ∀ attempt pending, (putRecords attempt pending).length = pending.length

/-! ## One response -/

def roundOf {ι : Type*} (positions : List ι) (response : List ResponseEntry) : Round ι String :=
  positions.zip (response.map (·.errorCode))

section
variable {ι : Type*} {positions : List ι} {response : List ResponseEntry}

theorem roundOf_items (h : response.length = positions.length) : (roundOf positions response).items = positions :=
  List.map_fst_zip (by rw [List.length_map, h])

theorem roundOf_response (h : response.length = positions.length) :
    (roundOf positions response).map (fun e => ⟨e.2⟩) = response := by
  have hcodes : (roundOf positions response).map Prod.snd = response.map (·.errorCode) :=
    List.map_snd_zip (by rw [List.length_map, h])
  calc (roundOf positions response).map (fun e => (⟨e.2⟩ : ResponseEntry))
      = ((roundOf positions response).map Prod.snd).map ResponseEntry.mk := by rw [List.map_map]; rfl
    _ = response := by rw [hcodes, List.map_map]; exact List.map_id _

/-- The `i`-th failed entry is that of the `i`-th failed record of the request. -/
theorem failedEntries_aligned (f : ι → KinesisRecord) (h : response.length = positions.length) :
    List.Forall₂ (fun e p => (positions.map f)[e.1]? = some (f p.1) ∧ e.2 = p.2)
      (failedEntries response) (roundOf positions response).failed := by
  suffices hall : ∀ before : List KinesisRecord,
      List.Forall₂ (fun e p => (before ++ positions.map f)[e.1]? = some (f p.1) ∧ e.2 = p.2)
        ((response.zipIdx before.length).filterMap fun (entry, i) => entry.errorCode.map fun code => (i, code))
        (roundOf positions response).failed from hall []
  induction response generalizing positions with
  | nil =>
    intro before
    rw [List.eq_nil_of_length_eq_zero h.symm]
    exact .nil
  | cons entry response ih =>
    intro before
    obtain ⟨x, xs, rfl⟩ := List.exists_cons_of_length_eq_add_one h.symm
    have hrest := ih (Nat.succ.inj h) (before ++ [f x])
    rw [List.length_append, List.length_singleton, List.append_assoc] at hrest
    have hx : (before ++ (x :: xs).map f)[before.length]? = some (f x) := by simp
    obtain ⟨errorCode⟩ := entry
    change List.Forall₂ _ _ (Round.failed ((x, errorCode) :: roundOf xs response))
    rw [List.zipIdx_cons, List.filterMap_cons, Round.failed_cons]
    cases errorCode with
    | none => exact hrest
    | some code => exact .cons ⟨hx, rfl⟩ hrest

theorem failedRecords_aligned (f : ι → KinesisRecord) (h : response.length = positions.length) :
    failedRecords (positions.map f) response = .ok (((roundOf positions response).failed.map Prod.fst).map f) := by
  unfold failedRecords
  rw [mapM_eq_ok, List.map_map, List.forall₂_map_right_iff]
  exact (failedEntries_aligned f h).imp fun e p hp => by simp only [item, hp.1, Function.comp_apply]

theorem logFailed_of_forall₂ {f : ι → KinesisRecord} {pending : List KinesisRecord} {entries : List (ℕ × String)}
    {failed : List (ι × String)}
    (h : List.Forall₂ (fun e p => pending[e.1]? = some (f p.1) ∧ e.2 = p.2) entries failed) :
    logFailed pending entries = ⟨failed.map fun p => .publishFailed (f p.1).partitionKey p.2, none⟩ := by
  induction h with
  | nil => rfl
  | @cons e p _ _ hp _ ih =>
    simp only [logFailed, item, hp.1, ih, hp.2, Trace.after, List.map_cons, List.singleton_append]

end

/-! ## One turn of the loop -/

section
variable {putRecords : ℕ → List KinesisRecord → List ResponseEntry} {streamName : String} {maxRetries : ℕ}
  {backoffBaseSeconds : ℚ} {records : List KinesisRecord} {positions : List (Fin records.length)} {attempt : ℕ}

theorem sleep_backoff (hbase : 0 ≤ backoffBaseSeconds) :
    sleep (backoffBaseSeconds * 2 ^ attempt) = .ok (.sleep (backoffBaseSeconds * 2 ^ attempt)) := by
  have hnonneg : 0 ≤ backoffBaseSeconds * 2 ^ attempt := mul_nonneg hbase (pow_nonneg zero_le_two _)
  exact if_neg hnonneg.not_gt

theorem callEffect_roundOf {response : List ResponseEntry} (h : response.length = positions.length) :
    callEffect streamName records (roundOf positions response) =
      .putRecords streamName (positions.map records.get) response := by
  rw [callEffect, roundOf_items h, roundOf_response h]

/-- What call number `attempt` is answered, with the positions of the records in place of the records. -/
def callAt (putRecords : ℕ → List KinesisRecord → List ResponseEntry) (attempt : ℕ) {records : List KinesisRecord}
    (positions : List (Fin records.length)) : Round (Fin records.length) String :=
  roundOf positions (putRecords attempt (positions.map records.get))

theorem callAt_items (haligned : Aligned putRecords) : (callAt putRecords attempt positions).items = positions :=
  roundOf_items (by rw [haligned, List.length_map])

theorem publishLoop_turn (haligned : Aligned putRecords) (hne : positions ≠ []) :
    publishLoop putRecords streamName maxRetries backoffBaseSeconds (positions.map records.get) attempt =
      if (callAt putRecords attempt positions).failed = [] then
        ⟨[callEffect streamName records (callAt putRecords attempt positions)], none⟩
      else if maxRetries ≤ attempt then
        ⟨callEffect streamName records (callAt putRecords attempt positions) ::
          (callAt putRecords attempt positions).failed.map (logEffect records), none⟩
      else
        match sleep (backoffBaseSeconds * 2 ^ attempt) with
        | .error e => ⟨[callEffect streamName records (callAt putRecords attempt positions)], some e⟩
        | .ok slept =>
          (publishLoop putRecords streamName maxRetries backoffBaseSeconds
            (((callAt putRecords attempt positions).failed.map Prod.fst).map records.get) (attempt + 1)).after
              [callEffect streamName records (callAt putRecords attempt positions), slept] := by
  have hlen : (putRecords attempt (positions.map records.get)).length = positions.length := by
    rw [haligned, List.length_map]
  have hfailed := failedRecords_aligned records.get hlen
  have hlogged := logFailed_of_forall₂ (failedEntries_aligned records.get hlen)
  unfold callAt
  rw [publishLoop]
  simp only [List.isEmpty_iff, List.map_eq_nil_iff, hne, if_false, hfailed, hlogged, callEffect_roundOf hlen]
  rfl

/-- A call is the last one when nothing fails in it or no retry is left. -/
theorem publishLoop_last (haligned : Aligned putRecords) (hne : positions ≠ [])
    (hlast : (callAt putRecords attempt positions).failed = [] ∨ maxRetries ≤ attempt) :
    publishLoop putRecords streamName maxRetries backoffBaseSeconds (positions.map records.get) attempt =
      ⟨callEffect streamName records (callAt putRecords attempt positions) ::
        (callAt putRecords attempt positions).failed.map (logEffect records), none⟩ := by
  rw [publishLoop_turn haligned hne]
  by_cases hfailed : (callAt putRecords attempt positions).failed = []
  · rw [if_pos hfailed, hfailed]
    rfl
  · rw [if_neg hfailed, if_pos (hlast.resolve_left hfailed)]

theorem publishLoop_retry (haligned : Aligned putRecords) (hne : positions ≠ []) (hbase : 0 ≤ backoffBaseSeconds)
    (hfailed : (callAt putRecords attempt positions).failed ≠ []) (hleft : attempt < maxRetries) :
    publishLoop putRecords streamName maxRetries backoffBaseSeconds (positions.map records.get) attempt =
      (publishLoop putRecords streamName maxRetries backoffBaseSeconds
        (((callAt putRecords attempt positions).failed.map Prod.fst).map records.get) (attempt + 1)).after
          [callEffect streamName records (callAt putRecords attempt positions),
            .sleep (backoffBaseSeconds * 2 ^ attempt)] := by
  rw [publishLoop_turn haligned hne, if_neg hfailed, if_neg hleft.not_ge, sleep_backoff hbase]

/-! ## The whole loop -/

/-- The induction is on the retries that are left. -/
theorem publishLoop_resends (haligned : Aligned putRecords) (hbase : 0 ≤ backoffBaseSeconds) :
    ∀ (attempt : ℕ) (positions : List (Fin records.length)), attempt ≤ maxRetries → positions ≠ [] →
      ∃ call calls logged,
        publishLoop putRecords streamName maxRetries backoffBaseSeconds (positions.map records.get) attempt =
          ⟨callEffects streamName backoffBaseSeconds records attempt (call :: calls) ++
            logged.map (logEffect records), none⟩ ∧
        Resends positions (call :: calls) logged ∧ attempt + calls.length ≤ maxRetries ∧
        (logged ≠ [] → attempt + calls.length = maxRetries)
  | attempt, positions, hle, hne => by
    have hitems : (callAt putRecords attempt positions).items = positions := callAt_items haligned
    by_cases hlast : (callAt putRecords attempt positions).failed = [] ∨ maxRetries ≤ attempt
    · refine ⟨_, [], _, publishLoop_last haligned hne hlast, ?_, hle, fun hlogged => ?_⟩
      · have hresends := Resends.last (callAt putRecords attempt positions)
        rwa [hitems] at hresends
      · exact le_antisymm hle (hlast.resolve_left hlogged)
    · obtain ⟨hfailed, hleft⟩ := not_or.mp hlast
      rw [not_le] at hleft
      have hne' : (callAt putRecords attempt positions).failed.map Prod.fst ≠ [] :=
        fun h => hfailed (List.map_eq_nil_iff.mp h)
      obtain ⟨call, calls, logged, hloop, hresends, hlen, hexhausted⟩ :=
        publishLoop_resends haligned hbase (attempt + 1) _ hleft hne'
      refine ⟨callAt putRecords attempt positions, call :: calls, logged, ?_, ?_, ?_, fun hlogged => ?_⟩
      · rw [publishLoop_retry haligned hne hbase hfailed hleft, hloop]
        rfl
      · have hnext := Resends.next hresends
        rwa [hitems] at hnext
      · rw [List.length_cons]
        omega
      · have := hexhausted hlogged
        rw [List.length_cons]
        omega
termination_by attempt => maxRetries - attempt

theorem publishBatch_nil : publishBatch putRecords streamName maxRetries backoffBaseSeconds [] = ⟨[], none⟩ := by
  rw [publishBatch, publishLoop]
  rfl

theorem publishBatch_resends (haligned : Aligned putRecords) (streamName : String) (maxRetries : ℕ)
    (hbase : 0 ≤ backoffBaseSeconds) (records : List KinesisRecord) :
    ∃ calls logged,
      publishBatch putRecords streamName maxRetries backoffBaseSeconds records =
        ⟨callEffects streamName backoffBaseSeconds records 0 calls ++ logged.map (logEffect records), none⟩ ∧
      Resends (List.finRange records.length) calls logged ∧ calls.length ≤ maxRetries + 1 ∧
      (logged ≠ [] → calls.length = maxRetries + 1) := by
  by_cases hempty : records = []
  · subst hempty
    exact ⟨[], [], publishBatch_nil, .nil, Nat.zero_le _, fun h => absurd rfl h⟩
  · have hne : List.finRange records.length ≠ [] := by simpa using hempty
    obtain ⟨call, calls, logged, hloop, hresends, hlen, hexhausted⟩ :=
      publishLoop_resends haligned hbase 0 _ (Nat.zero_le maxRetries) hne
    rw [List.map_get_finRange] at hloop
    refine ⟨call :: calls, logged, hloop, hresends, ?_, fun hlogged => ?_⟩
    · rw [List.length_cons]
      omega
    · have := hexhausted hlogged
      rw [List.length_cons]
      omega

theorem mem_callEffects_sleep {calls : List (Round (Fin records.length) String)} {seconds : ℚ}
    (h : .sleep seconds ∈ callEffects streamName backoffBaseSeconds records attempt calls) :
    ∃ j, j + 1 < attempt + calls.length ∧ seconds = backoffBaseSeconds * 2 ^ j := by
  induction calls generalizing attempt with
  | nil => cases h
  | cons call calls ih =>
    cases calls with
    | nil => cases List.mem_singleton.mp h
    | cons call' calls =>
      rw [callEffects, List.mem_cons, List.mem_cons] at h
      rcases h with h | h | h
      · cases h
      · obtain rfl := Effect.sleep.inj h
        refine ⟨attempt, ?_, rfl⟩
        rw [List.length_cons, List.length_cons]
        omega
      · obtain ⟨j, hj, hseconds⟩ := ih h
        refine ⟨j, ?_, hseconds⟩
        rw [List.length_cons]
        omega

/-- No backoff is longer than the one before the last retry that is allowed. -/
theorem publishBatch_slept (haligned : Aligned putRecords) (hbase : 0 ≤ backoffBaseSeconds) {seconds : ℚ}
    (h : .sleep seconds ∈ (publishBatch putRecords streamName maxRetries backoffBaseSeconds records).effects) :
    seconds ≤ backoffBaseSeconds * 2 ^ (maxRetries - 1) := by
  obtain ⟨calls, logged, hbatch, -, hlen, -⟩ := publishBatch_resends haligned streamName maxRetries hbase records
  rw [hbatch] at h
  rcases List.mem_append.mp h with h | h
  · obtain ⟨j, hj, rfl⟩ := mem_callEffects_sleep h
    have hle : j ≤ maxRetries - 1 := by omega
    exact mul_le_mul_of_nonneg_left (pow_le_pow_right₀ one_le_two hle) hbase
  · obtain ⟨_, -, hlogged⟩ := List.mem_map.mp h
    cases hlogged

/-- A negative backoff stops the process at the first retry. Nothing else raises, as long as `time.sleep`
takes the backoffs, which it does if it takes the one before the last retry (`publishBatch_slept`). -/
theorem publishBatch_raises_iff (haligned : Aligned putRecords) :
    (publishBatch putRecords streamName maxRetries backoffBaseSeconds records).raised ≠ none ↔
      backoffBaseSeconds < 0 ∧ 0 < maxRetries ∧
        (callAt putRecords 0 (List.finRange records.length)).failed ≠ [] := by
  by_cases hbase : 0 ≤ backoffBaseSeconds
  · obtain ⟨_, _, hbatch, -⟩ := publishBatch_resends haligned streamName maxRetries hbase records
    rw [hbatch]
    exact iff_of_false (fun h => h rfl) fun h => h.1.not_ge hbase
  by_cases hempty : records = []
  · subst hempty
    rw [publishBatch_nil]
    exact iff_of_false (fun h => h rfl) fun h => h.2.2 rfl
  have hne : List.finRange records.length ≠ [] := by simpa using hempty
  have hfirst : publishBatch putRecords streamName maxRetries backoffBaseSeconds records =
      publishLoop putRecords streamName maxRetries backoffBaseSeconds
        ((List.finRange records.length).map records.get) 0 := by
    rw [List.map_get_finRange]
    rfl
  by_cases hlast : (callAt putRecords 0 (List.finRange records.length)).failed = [] ∨ maxRetries ≤ 0
  · rw [hfirst, publishLoop_last haligned hne hlast]
    refine iff_of_false (fun h => h rfl) fun ⟨_, hleft, hfailed⟩ => ?_
    exact hlast.elim hfailed hleft.not_ge
  · obtain ⟨hfailed, hleft⟩ := not_or.mp hlast
    have hsleep : sleep (backoffBaseSeconds * 2 ^ 0) = .error .valueError := by
      rw [pow_zero, mul_one]
      exact if_pos (not_le.mp hbase)
    rw [hfirst, publishLoop_turn haligned hne, if_neg hfailed, if_neg hleft, hsleep]
    exact iff_of_true (fun h => nomatch h) ⟨not_le.mp hbase, not_le.mp hleft, hfailed⟩

/-! ## Every record accounted for -/

/-- The records logged as failed: those that fail in the last call. -/
def lastFailed {n : ℕ} (calls : List (Round (Fin n) String)) : List (Fin n × String) := (calls.getLastD []).failed

/-- `trace` makes the calls `calls`: every record of the batch is acknowledged in exactly one of them or
logged exactly once, and each retry is the failed records of the call before. -/
structure Accounted (streamName : String) (maxRetries : ℕ) (backoffBaseSeconds : ℚ) (records : List KinesisRecord)
    (trace : Trace) (calls : List (Round (Fin records.length) String)) : Prop where
  returns : trace.raised = none
  effects : trace.effects =
    callEffects streamName backoffBaseSeconds records 0 calls ++ (lastFailed calls).map (logEffect records)
  calls_le : calls.length ≤ maxRetries + 1
  first : ∀ call ∈ calls.head?, call.items = List.finRange records.length
  resubmitted : calls.IsChain fun call call' => call'.items = call.failed.map Prod.fst
  ordered : ∀ call ∈ calls, call.items.Pairwise (· < ·)
  exhausted : lastFailed calls ≠ [] → calls.length = maxRetries + 1
  once : ∀ p,
    (calls.flatMap Round.acknowledged).count p = 1 ∧ ((lastFailed calls).map Prod.fst).count p = 0 ∨
      (calls.flatMap Round.acknowledged).count p = 0 ∧ ((lastFailed calls).map Prod.fst).count p = 1
  never_again : calls.Pairwise fun call call' => ∀ p ∈ call.acknowledged, p ∉ call'.items

theorem every_record_accounted (haligned : Aligned putRecords) (hbase : 0 ≤ backoffBaseSeconds) :
    ∃ calls, Accounted streamName maxRetries backoffBaseSeconds records
      (publishBatch putRecords streamName maxRetries backoffBaseSeconds records) calls := by
  obtain ⟨calls, logged, hbatch, hresends, hlen, hexhausted⟩ :=
    publishBatch_resends haligned streamName maxRetries hbase records
  have hnd : (List.finRange records.length).Nodup := List.nodup_finRange _
  have hlast : logged = lastFailed calls := hresends.left_eq
  subst hlast
  refine ⟨calls, by rw [hbatch], by rw [hbatch], hlen, hresends.head_items, hresends.chain, fun call hcall => ?_,
    hexhausted, fun p => ?_, hresends.never_again hnd⟩
  · exact (List.pairwise_lt_finRange _).sublist (hresends.sublist call hcall)
  · have := hresends.count_eq_one hnd (List.mem_finRange p)
    omega

end

def threeRecords : List KinesisRecord := [⟨[1], "Gracia"⟩, ⟨[2], "Sants"⟩, ⟨[3], "Raval"⟩]

/-- Never accepts the record of Sants, nor that of Raval in the first call. -/
def throttling (attempt : ℕ) (pending : List KinesisRecord) : List ResponseEntry :=
  pending.map fun record =>
    if record.partitionKey = "Sants" ∨ record.partitionKey = "Raval" ∧ attempt = 0 then ⟨some "Throttled"⟩
    else ⟨none⟩

theorem threeRecords_accounted :
    (∃ calls, Accounted "prices" 2 (1 / 2) threeRecords
      (publishBatch throttling "prices" 2 (1 / 2) threeRecords) calls) ∧
    publishBatch throttling "prices" 2 (1 / 2) threeRecords =
      ⟨[.putRecords "prices" threeRecords [⟨none⟩, ⟨some "Throttled"⟩, ⟨some "Throttled"⟩],
        .sleep (1 / 2),
        .putRecords "prices" [⟨[2], "Sants"⟩, ⟨[3], "Raval"⟩] [⟨some "Throttled"⟩, ⟨none⟩],
        .sleep 1,
        .putRecords "prices" [⟨[2], "Sants"⟩] [⟨some "Throttled"⟩],
        .publishFailed "Sants" "Throttled"], none⟩ :=
  ⟨every_record_accounted (fun _ _ => List.length_map _) one_half_pos.le, by decide +kernel⟩

end PriceEngine.MarketIngestor
